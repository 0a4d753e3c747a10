import TinyCoro.Io.FixedLeases

/-! Where the operations of a `tcp_connector` go, while its slot is leased and after it was
given back, over every run of the objects on one engine. -/
namespace TinyCoro.Io
open Library

/-- What an entry of the submission ring says of its file. -/
structure Sqe where
  fd : Int
  flags : BitVec 32

def Sqe.setFlags (e : Sqe) (flags : BitVec 32) : Sqe := { e with flags }

/-- The `io_uring_prep_*` functions. Some versions of liburing clear the flags. -/
def Sqe.prep (clears : Bool) (e : Sqe) (fd : Int) : Sqe := ⟨fd,if clears then 0 else e.flags⟩

/-- The constructors of the awaiters set the flags before they prepare the entry. -/
def Sqe.transfer (clears : Bool) (e : Sqe) (sockfd : Int) (sqeFlag : BitVec 32) : Sqe :=
  (e.setFlags sqeFlag).prep clears sockfd

namespace TcpConnector

def read (clears : Bool) (c : TcpConnector) (e : Sqe) : Sqe := e.transfer clears c.sockfd c.sqeFlag

def write (clears : Bool) (c : TcpConnector) (e : Sqe) : Sqe := e.transfer clears c.sockfd c.sqeFlag

inductive Transfers (clears : Bool) (c : TcpConnector) : Sqe → Prop
  | read (e : Sqe) : Transfers clears c (c.read clears e)
  | write (e : Sqe) : Transfers clears c (c.write clears e)

end TcpConnector

/-- The file that the kernel takes for an entry: with `IOSQE_FIXED_FILE` a registered one. -/
def UringProxy.file (u : UringProxy) (e : Sqe) : Option Int :=
  if e.flags &&& iosqeFixedFile = 0 then some e.fd
  else if 0 ≤ e.fd then u.registered[e.fd.toNat]? else none

section
variable {Obj Conn : Type}

/-- Where `read` and `write` of a connector go. `leased`: with a slot to its own socket, or to
the process's descriptor of the slot's number if liburing has cleared the flag. `closed`: once
the slot is given back, to its null descriptor or to whom it was lent since. `cleared`: without
the flag always to the process's descriptor of the number in `m_sockfd`. -/
structure Reaches (clears : Bool) (s : State Obj Conn) (c : Conn) (conn : TcpConnector) : Prop where
  plain : conn.sqeFlag = 0 → ∀ e, conn.Transfers clears e → s.uring.file e = some conn.originalFd
  leased : conn.fixedFd.item.valid = true → ∀ e, conn.Transfers clears e →
    s.uring.file e = some (if clears then conn.fixedFd.item.idx else conn.originalFd)
  closed : clears = false → conn.fixedFd.item.valid = false → conn.sqeFlag ≠ 0 → ∀ e, conn.Transfers clears e →
    s.uring.file e = s.uring.nullFds[conn.sockfd.toNat]? ∨
      ∃ h, h ≠ .inr c ∧ s.Holds h conn.sockfd ∧ ∀ c' conn', h = .inr c' → s.connectors c' = some conn' →
        s.uring.file e = some conn'.originalFd
  cleared : clears = true → ∀ e, conn.Transfers clears e → s.uring.file e = some conn.sockfd

end

namespace FixedFds
variable {u : UringProxy} {f : FixedFds} {fd : Int} {flag : BitVec 32} {i : Int}

private theorem construct_data : (construct u).2.fds.data = u.fds.data := by rw [construct_uring]

private theorem assign_data (valid : f.item.valid = true) (member : f.item.idx ∈ slots) :
    (f.assign u fd flag).2.2.fds.data[f.item.idx.toNat]? = some fd := by
  simp only [assign,valid,if_true,UringProxy.updateRegisterFixedFds,MarkedBuffer.store,f.item.points (of_decide_eq_true valid),
    Option.elim_some]
  exact Vector.getElem?_setIfInBounds_self_of_lt (toNat_lt member)

private theorem assign_data_of_ne (member : i ∈ slots) (other : ∀ j, f.item.lease = some j → j ∈ slots ∧ j ≠ i) :
    (f.assign u fd flag).2.2.fds.data[i.toNat]? = u.fds.data[i.toNat]? := by
  unfold assign
  split
  next valid =>
    obtain ⟨member',apart⟩ := other _ (Item.lease_eq_some.mpr ⟨valid,rfl⟩)
    simp only [UringProxy.updateRegisterFixedFds,MarkedBuffer.store,f.item.points (of_decide_eq_true valid),Option.elim_some]
    exact Vector.getElem?_setIfInBounds_ne (toNat_ne member' member apart)
  next => rfl

private theorem returnBack_data_of_ne (member : i ∈ slots) (other : ∀ j, f.item.lease = some j → j ∈ slots ∧ j ≠ i) :
    (f.returnBack u).2.fds.data[i.toNat]? = u.fds.data[i.toNat]? := by
  unfold returnBack
  split
  next valid =>
    obtain ⟨member',apart⟩ := other _ (Item.lease_eq_some.mpr ⟨valid,rfl⟩)
    simp only [UringProxy.backFixedFd,MarkedBuffer.returnBack,UringProxy.updateRegisterFixedFds,MarkedBuffer.store,valid,if_true,
      Option.elim_some]
    exact Vector.getElem?_setIfInBounds_ne (toNat_ne member' member apart)
  next => rfl

private theorem returnBack_invalid : (f.returnBack u).1.item.valid = false := by
  unfold returnBack
  split
  next => rfl
  next invalid => exact Bool.eq_false_iff.mpr invalid

end FixedFds

/-- What `m_sockfd` and `m_sqe_flag` are, and what the slot of an open connector holds. -/
structure TcpConnector.Slotted (conn : TcpConnector) (u : UringProxy) : Prop where
  flagged : conn.sqeFlag = 0 ∧ conn.sockfd = conn.originalFd ∧ conn.fixedFd.item.valid = false ∨
    conn.sqeFlag = iosqeFixedFile ∧ conn.sockfd ∈ slots
  own : conn.fixedFd.item.valid = true →
    conn.sockfd = conn.fixedFd.item.idx ∧ u.fds.data[conn.sockfd.toNat]? = some conn.originalFd

section
variable {Obj Conn : Type} {s t : State Obj Conn} {c : Conn} {conn : TcpConnector}

theorem TcpConnector.Slotted.keep {u u' : UringProxy} (slotted : conn.Slotted u)
    (same : ∀ i, conn.fixedFd.item.lease = some i → u'.fds.data[i.toNat]? = u.fds.data[i.toNat]?) : conn.Slotted u' := by
  refine ⟨slotted.flagged,fun valid => ?_⟩
  obtain ⟨sockfd,data⟩ := slotted.own valid
  refine ⟨sockfd,?_⟩
  rw [sockfd] at data ⊢
  rw [same _ (Item.lease_eq_some.mpr ⟨valid,rfl⟩)]
  exact data

private theorem construct_slotted {u : UringProxy} {sockfd : Int} (inside : ∀ i ∈ u.fds.que, i ∈ slots) :
    (TcpConnector.construct u sockfd).1.Slotted (TcpConnector.construct u sockfd).2 := by
  have lease := FixedFds.construct_lease inside
  have assigned := @FixedFds.assign_data (FixedFds.construct u).2 (FixedFds.construct u).1 sockfd 0
  by_cases valid : (FixedFds.construct u).1.item.valid = true
  · have member : (FixedFds.construct u).1.item.idx ∈ slots := by
      rw [Item.lease_eq_some.mpr ⟨valid,rfl⟩] at lease
      exact inside _ (List.mem_of_head? lease.symm)
    have data := assigned valid member
    have fd : (TcpConnector.construct u sockfd).1.sockfd = (FixedFds.construct u).1.item.idx := by
      simp only [TcpConnector.construct,FixedFds.assign,valid,if_true]
    refine ⟨.inr ⟨?_,fd ▸ member⟩,fun _ => ⟨fd,?_⟩⟩
    · simp only [TcpConnector.construct,FixedFds.assign,valid,if_true]
      rfl
    · rw [fd]
      exact data
  · refine ⟨.inl ⟨?_,?_,Bool.eq_false_iff.mpr valid⟩,fun leased => absurd leased valid⟩
    · simp only [TcpConnector.construct,FixedFds.assign,if_neg valid]
    · simp only [TcpConnector.construct,FixedFds.assign,if_neg valid]

def Slotted (s : State Obj Conn) : Prop := ∀ c conn, s.connectors c = some conn → conn.Slotted s.uring

theorem elsewhere {h h' : Obj ⊕ Conn} {f : FixedFds} {i : Int} (exact : s.leases.Exact slots) (other : h ≠ h')
    (live : s.leases.held h = f.item.lease) (holds : s.leases.held h' = some i) : ∀ j, f.item.lease = some j → j ∈ slots ∧ j ≠ i := by
  intro j lease
  have lent := live.trans lease
  refine ⟨exact.inside.held h j lent,fun same => other (exact.single h h' i ?_ holds)⟩
  rw [lent,same]

theorem Slotted.keep {u : UringProxy} (slotted : Slotted s) (live : s.connectors c = some conn)
    (same : ∀ i, s.leases.held (.inr c) = some i → u.fds.data[i.toNat]? = s.uring.fds.data[i.toNat]?) : conn.Slotted u :=
  (slotted c conn live).keep fun i lease => same i ((held_connector live).trans lease)

theorem Slotted.giveBack {h : Obj ⊕ Conn} {f : FixedFds} (slotted : Slotted s) (exact : s.leases.Exact slots) (other : h ≠ .inr c)
    (held : s.leases.held h = f.item.lease) (live : s.connectors c = some conn) : conn.Slotted (f.returnBack s.uring).2 := by
  apply slotted.keep live
  intro i holds
  exact FixedFds.returnBack_data_of_ne (exact.inside.held _ i holds) (elsewhere exact other held holds)

variable [DecidableEq Obj] [DecidableEq Conn]

omit [DecidableEq Obj] in
theorem Slotted.connect {c₀ : Conn} {sockfd : Int} (slotted : Slotted s) (exact : s.leases.Exact slots) :
    Slotted (s.setConnector c₀ (some (TcpConnector.construct s.uring sockfd).1) (TcpConnector.construct s.uring sockfd).2) := by
  intro c conn live
  by_cases new : c = c₀
  · subst new
    simp only [State.setConnector,Function.update_self,Option.some.injEq] at live
    exact live ▸ construct_slotted exact.inside.free
  · simp only [State.setConnector,Function.update_of_ne new] at live
    apply slotted.keep live
    intro i holds
    have apart : ∀ j, (FixedFds.construct s.uring).1.item.lease = some j → j ∈ slots ∧ j ≠ i := by
      intro j lease
      rw [FixedFds.construct_lease exact.inside.free] at lease
      have free := List.mem_of_head? lease
      exact ⟨exact.inside.free j free,fun same => exact.apart _ i holds (same ▸ free)⟩
    have assigned := @FixedFds.assign_data_of_ne (FixedFds.construct s.uring).2 _ sockfd 0 i (exact.inside.held _ i holds) apart
    rw [FixedFds.construct_data] at assigned
    exact assigned

theorem Slotted.step {a : Action Obj Conn} (slotted : Slotted s) (exact : s.leases.Exact slots) (moved : step s a = some t) :
    Slotted t := by
  cases a with
  | construct o =>
    simp only [Io.step,Option.ite_none_right_eq_some,Option.some.injEq] at moved
    rw [← moved.2]
    intro c conn live
    exact slotted.keep live fun i _ => congrArg (·[i.toNat]?) FixedFds.construct_data
  | copy source target =>
    simp only [Io.step,Option.ite_none_right_eq_some,Option.map_eq_some_iff] at moved
    obtain ⟨_,f,_,rfl⟩ := moved
    exact slotted
  | copyAssign source target =>
    simp only [Io.step,Option.ite_none_left_eq_some,Option.map_eq_some_iff] at moved
    obtain ⟨_,f,_,rfl⟩ := moved
    exact slotted
  | assign o fd flag =>
    simp only [Io.step,Option.map_eq_some_iff] at moved
    obtain ⟨f,lives,rfl⟩ := moved
    intro c conn live
    apply slotted.keep live
    intro i holds
    exact FixedFds.assign_data_of_ne (exact.inside.held _ i holds) (elsewhere exact Sum.inl_ne_inr (held_object lives) holds)
  | returnBack o | destroy o =>
    simp only [Io.step,Option.map_eq_some_iff] at moved
    obtain ⟨f,lives,rfl⟩ := moved
    intro c conn live
    exact slotted.giveBack exact Sum.inl_ne_inr (held_object lives) live
  | connect c₀ sockfd =>
    simp only [Io.step,Option.ite_none_right_eq_some,Option.some.injEq] at moved
    rw [← moved.2]
    exact slotted.connect exact
  | copyConnector source target =>
    simp only [Io.step,Option.ite_none_right_eq_some,Option.map_eq_some_iff] at moved
    obtain ⟨_,f,lives,rfl⟩ := moved
    intro c conn live
    by_cases new : c = target
    · subst new
      simp only [State.setConnector,Function.update_self,Option.some.injEq] at live
      exact live ▸ slotted source f lives
    · simp only [State.setConnector,Function.update_of_ne new] at live
      exact slotted c conn live
  | close c₀ =>
    simp only [Io.step,Option.map_eq_some_iff] at moved
    obtain ⟨f,lives,rfl⟩ := moved
    intro c conn live
    by_cases mine : c = c₀
    · subst mine
      simp only [State.setConnector,Function.update_self,Option.some.injEq] at live
      subst live
      have back : (f.close s.uring).1.fixedFd.item.valid = false := FixedFds.returnBack_invalid
      refine ⟨?_,fun valid => absurd valid (by simp [back])⟩
      rcases (slotted c f lives).flagged with ⟨flag,sockfd,_⟩ | flagged
      · exact .inl ⟨flag,sockfd,back⟩
      · exact .inr flagged
    · simp only [State.setConnector,Function.update_of_ne mine] at live
      exact slotted.giveBack exact (fun same => mine (Sum.inr.inj same).symm) (held_connector lives) live
  | destroyConnector c₀ =>
    simp only [Io.step,Option.map_eq_some_iff] at moved
    obtain ⟨f,lives,rfl⟩ := moved
    intro c conn live
    by_cases mine : c = c₀
    · subst mine
      simp only [State.setConnector,Function.update_self] at live
      contradiction
    · simp only [State.setConnector,Function.update_of_ne mine] at live
      exact slotted.giveBack exact (fun same => mine (Sum.inr.inj same).symm) (held_connector lives) live

omit [DecidableEq Obj] [DecidableEq Conn] in
theorem TcpConnector.Transfers.entry {clears : Bool} {e : Sqe} (transfers : conn.Transfers clears e) :
    e = ⟨conn.sockfd,if clears then 0 else conn.sqeFlag⟩ := by
  cases transfers with
  | read e => rfl
  | write e => rfl

omit [DecidableEq Obj] [DecidableEq Conn] in
/-- An entry with the flag goes where the slot's descriptor leads. -/
theorem file_fixed {u : UringProxy} {e : Sqe} (follows : u.registered = u.fds.data) (flag : conn.sqeFlag = iosqeFixedFile)
    (member : conn.sockfd ∈ slots) (transfers : conn.Transfers false e) : u.file e = u.fds.data[conn.sockfd.toNat]? := by
  have set : iosqeFixedFile &&& iosqeFixedFile ≠ 0 := by decide
  rw [transfers.entry]
  simp only [UringProxy.file,flag,Bool.false_eq_true,if_false,if_neg set,if_pos member.1,follows]

omit [DecidableEq Obj] [DecidableEq Conn] in
private theorem file_plain {u : UringProxy} {clears : Bool} {e : Sqe} (flag : clears = true ∨ conn.sqeFlag = 0)
    (transfers : conn.Transfers clears e) : u.file e = some conn.sockfd := by
  have none : (if clears then 0 else conn.sqeFlag) = 0 := by
    rcases flag with clears | flag
    · rw [clears,if_pos rfl]
    · rw [flag,ite_self]
  have unset : (0 : BitVec 32) &&& iosqeFixedFile = 0 := by decide
  rw [transfers.entry]
  simp only [UringProxy.file,none,if_pos unset]

omit [DecidableEq Obj] [DecidableEq Conn] in
private theorem TcpConnector.Slotted.flag_of_valid {u : UringProxy} (slotted : conn.Slotted u) (valid : conn.fixedFd.item.valid = true) :
    conn.sqeFlag = iosqeFixedFile ∧ conn.sockfd ∈ slots := by
  rcases slotted.flagged with ⟨_,_,invalid⟩ | flagged
  · rw [valid] at invalid
    contradiction
  · exact flagged

omit [DecidableEq Obj] [DecidableEq Conn] in
theorem Slotted.reaches (slotted : Slotted s) (exact : s.leases.Exact slots) (nulled : s.uring.Nulled)
    (follows : s.uring.registered = s.uring.fds.data) (clears : Bool) (live : s.connectors c = some conn) : Reaches clears s c conn := by
  have slot := slotted c conn live
  refine ⟨fun flag e transfers => ?_,fun valid e transfers => ?_,?_,fun flagless e transfers => file_plain (.inl flagless) transfers⟩
  · rcases slot.flagged with ⟨_,sockfd,_⟩ | ⟨flag',_⟩
    · rw [file_plain (.inr flag) transfers,sockfd]
    · rw [flag] at flag'
      exact absurd flag' (by decide)
  · obtain ⟨flag,member⟩ := slot.flag_of_valid valid
    obtain ⟨sockfd,data⟩ := slot.own valid
    cases clears with
    | true => rw [file_plain (.inl rfl) transfers,sockfd,if_pos rfl]
    | false =>
      rw [file_fixed follows flag member transfers,data]
      rfl
  · rintro rfl invalid set e transfers
    rcases slot.flagged with ⟨none,_⟩ | ⟨flag,member⟩
    · exact absurd none set
    rw [file_fixed follows flag member transfers]
    rcases exact.complete _ member with free | ⟨h,holds⟩
    · exact .inl (nulled _ free)
    · refine .inr ⟨h,?_,(holds_iff s h _).mpr holds,?_⟩
      · rintro rfl
        rw [held_connector live,Item.lease,invalid] at holds
        contradiction
      · rintro c' conn' rfl live'
        rw [held_connector live'] at holds
        obtain ⟨valid',idx⟩ := Item.lease_eq_some.mp holds
        obtain ⟨sockfd',data⟩ := (slotted c' conn' live').own valid'
        rw [← idx,← sockfd']
        exact data

/-- Over every run of the objects on one engine in which nothing that holds a slot is copied or
copied over. -/
theorem connectors_reach (clears : Bool) (memory : MarkedBuffer Int kFixFdArraySize) (nulls : Vector Int kFixFdArraySize)
    (actions : List (Action Obj Conn)) (t : State Obj Conn) (ran : machine.run (State.initial memory nulls) actions = some t)
    (careful : machine.Meets CopiesNothing (State.initial memory nulls) actions) (c : Conn) (conn : TcpConnector)
    (live : t.connectors c = some conn) : Reaches clears t c conn := by
  have follows : t.uring.registered = t.uring.fds.data :=
    registered_reachable (Machine.run_reachable _ actions _ t (.start ⟨memory,nulls,rfl⟩) ran)
  have inside : (State.initial memory nulls : State Obj Conn).leases.Inside slots := initial_inside memory nulls
  obtain ⟨exact,nulled⟩ := (leased_iff inside).mp (initial_leased memory nulls)
  have kept := careful.invariant (fun s => s.leases.Exact slots ∧ s.uring.Nulled ∧ Slotted s) ?_ ⟨exact,nulled,?_⟩ ran
  · obtain ⟨exact,nulled,slotted⟩ := kept
    exact slotted.reaches exact nulled follows clears live
  · intro s s' a before copies moved
    obtain ⟨exact,nulled,slotted⟩ := before
    exact ⟨(step_exact_iff exact moved).mpr copies,step_nulled exact nulled moved,slotted.step exact moved⟩
  · intro c conn live
    cases live

/-- Seven objects take the other slots, and the second connection is lent the first one's. -/
def reconnects (more : List (Fin 7)) : List (Action (Fin 7) Bool) :=
  .connect false 40::more.map .construct ++ [.close false,.connect true 41]

/-- A read from the first connection after it was closed would read from the second. -/
theorem closed_reads_other : ∃ t, machine.run (State.initial ⟨.replicate 8 0,[]⟩ (.replicate 8 9)) (reconnects (List.finRange 7)) = some t ∧
    ∃ conn, t.connectors false = some conn ∧ t.uring.file (conn.read false ⟨0,0⟩) = some 41 ∧ Reaches false t false conn := by
  have ran : (machine.run (State.initial ⟨.replicate 8 0,[]⟩ (.replicate 8 9)) (reconnects (List.finRange 7))).bind (fun t =>
      (t.connectors false).map fun conn => t.uring.file (conn.read false ⟨0,0⟩)) = some (some 41) := by decide
  obtain ⟨t,reached,read⟩ := Option.bind_eq_some_iff.mp ran
  obtain ⟨conn,live,file⟩ := Option.map_eq_some_iff.mp read
  refine ⟨t,reached,conn,live,file,connectors_reach false _ _ _ t reached (Machine.meets_of_forall ?_) false conn live⟩
  intro a member s
  simp only [reconnects,List.mem_append,List.mem_cons,List.mem_map,List.not_mem_nil,or_false] at member
  rcases member with (rfl | ⟨_,_,rfl⟩) | rfl | rfl
  all_goals trivial

end
end TinyCoro.Io
