import TinyCoro.Library.Lease
import TinyCoro.Library.Machine
import Mathlib.Data.Vector.Defs

/-! Fixed file descriptors: the slots of `marked_buffer`, lent by `uring_proxy` to
`fixed_fds` and through it to `tcp_connector`, with `config::kEnableFixfd` on. -/
namespace TinyCoro.Io
open Library

def kFixFdArraySize : Nat := 8

def iosqeFixedFile : BitVec 32 := 1

/-- `marked_buffer::item`; a pointer into `data` by its index. -/
structure Item where
  idx : Int
  ptr : Option Nat
  points : 0 ≤ idx → ptr = some idx.toNat
  deriving DecidableEq

namespace Item

def valid (it : Item) : Bool := decide (0 ≤ it.idx)

def setInvalid : Item := ⟨-1,none,fun valid => absurd valid (by decide)⟩

/-- The slot an item stands for. -/
def lease (it : Item) : Option Int := if it.valid then some it.idx else none

@[simp] theorem lease_setInvalid : setInvalid.lease = none := rfl

theorem lease_eq_some {it : Item} {i : Int} : it.lease = some i ↔ it.valid = true ∧ it.idx = i := by
  unfold lease
  split
  next valid => simp only [Option.some.injEq,valid,true_and]
  next invalid => simp [invalid]

end Item

structure MarkedBuffer (α : Type) (length : Nat) where
  data : Vector α length
  que : List Int
  deriving DecidableEq

namespace MarkedBuffer
variable {α : Type} {length : Nat}

def init (b : MarkedBuffer α length) : MarkedBuffer α length := { b with que := [] }

def setData (b : MarkedBuffer α length) (values : Vector α length) : MarkedBuffer α length :=
  { data := values, que := b.que ++ (List.range length).map Int.ofNat }

def borrow (b : MarkedBuffer α length) : Item × MarkedBuffer α length :=
  match b.que with
  | [] => (Item.setInvalid,b)
  | idx::rest => (⟨idx,some idx.toNat,fun _ => rfl⟩,{ b with que := rest })

def returnBack (b : MarkedBuffer α length) (it : Item) : MarkedBuffer α length :=
  if it.valid then { b with que := b.que ++ [it.idx] } else b

def store (b : MarkedBuffer α length) (ptr : Option Nat) (value : α) : MarkedBuffer α length :=
  { b with data := ptr.elim b.data fun i => b.data.setIfInBounds i value }

end MarkedBuffer

/-- `registered` is the kernel's table of the registered files. -/
structure UringProxy where
  nullFds : Vector Int kFixFdArraySize
  fds : MarkedBuffer Int kFixFdArraySize
  registered : Vector Int kFixFdArraySize
  deriving DecidableEq

namespace UringProxy

/-- `init` opens the null descriptors; `memory` is the buffer before it. A failed
system call ends the process. -/
def init (memory : MarkedBuffer Int kFixFdArraySize) (nulls : Vector Int kFixFdArraySize) : UringProxy :=
  let fds := memory.init.setData nulls
  ⟨nulls,fds,fds.data⟩

def updateRegisterFixedFds (u : UringProxy) (_index : Int) : UringProxy := { u with registered := u.fds.data }

def getFixedFd (u : UringProxy) : Item × UringProxy :=
  let (it,fds) := u.fds.borrow
  (it,{ u with fds })

def backFixedFd (u : UringProxy) (it : Item) : UringProxy :=
  if it.valid then
    let nulled := { u with fds := u.fds.store (some it.idx.toNat) (u.nullFds.getD it.idx.toNat 0) }
    let updated := nulled.updateRegisterFixedFds it.idx
    { updated with fds := updated.fds.returnBack it }
  else u

end UringProxy

structure FixedFds where
  item : Item
  deriving DecidableEq

namespace FixedFds

def construct (u : UringProxy) : FixedFds × UringProxy :=
  let (item,u) := u.getFixedFd
  (⟨item⟩,u)

/-- `fd` and `flag` are references. -/
def assign (f : FixedFds) (u : UringProxy) (fd : Int) (flag : BitVec 32) : Int × BitVec 32 × UringProxy :=
  if f.item.valid then
    let u := { u with fds := u.fds.store f.item.ptr fd }
    (f.item.idx,flag ||| iosqeFixedFile,u.updateRegisterFixedFds f.item.idx)
  else (fd,flag,u)

def returnBack (f : FixedFds) (u : UringProxy) : FixedFds × UringProxy :=
  if f.item.valid then (⟨Item.setInvalid⟩,u.backFixedFd f.item) else (f,u)

def destroy (f : FixedFds) (u : UringProxy) : UringProxy := (f.returnBack u).2

end FixedFds

structure TcpConnector where
  sockfd : Int
  originalFd : Int
  fixedFd : FixedFds
  sqeFlag : BitVec 32
  deriving DecidableEq

namespace TcpConnector

def construct (u : UringProxy) (sockfd : Int) : TcpConnector × UringProxy :=
  let (fixedFd,u) := FixedFds.construct u
  let (fd,flag,u) := fixedFd.assign u sockfd 0
  (⟨fd,sockfd,fixedFd,flag⟩,u)

def close (c : TcpConnector) (u : UringProxy) : TcpConnector × UringProxy :=
  let (fixedFd,u) := c.fixedFd.returnBack u
  ({ c with fixedFd },u)

end TcpConnector

structure State (Obj Conn : Type) where
  uring : UringProxy
  objects : Obj → Option FixedFds
  connectors : Conn → Option TcpConnector

/-- What the types permit. Neither type declares a copy or move operation, and the
destructor of `fixed_fds` leaves only the implicit copies, to which moves fall back;
the constant member of `tcp_connector` deletes its assignment. -/
inductive Action (Obj Conn : Type) where
  | construct (o : Obj)
  | copy (source target : Obj)
  | copyAssign (source target : Obj)
  | assign (o : Obj) (fd : Int) (flag : BitVec 32)
  | returnBack (o : Obj)
  | destroy (o : Obj)
  | connect (c : Conn) (sockfd : Int)
  | copyConnector (source target : Conn)
  | close (c : Conn)
  | destroyConnector (c : Conn)

section
variable {Obj Conn : Type}

def State.initial (memory : MarkedBuffer Int kFixFdArraySize) (nulls : Vector Int kFixFdArraySize) : State Obj Conn :=
  ⟨UringProxy.init memory nulls,fun _ => none,fun _ => none⟩

variable [DecidableEq Obj] [DecidableEq Conn]

def State.setObject (s : State Obj Conn) (o : Obj) (f : Option FixedFds) (u : UringProxy) : State Obj Conn :=
  { s with uring := u, objects := Function.update s.objects o f }

def State.setConnector (s : State Obj Conn) (c : Conn) (f : Option TcpConnector) (u : UringProxy) : State Obj Conn :=
  { s with uring := u, connectors := Function.update s.connectors c f }

def step (s : State Obj Conn) : Action Obj Conn → Option (State Obj Conn)
  | .construct o =>
    if s.objects o = none then
      let (f,u) := FixedFds.construct s.uring
      some (s.setObject o (some f) u)
    else none
  | .copy source target =>
    if s.objects target = none then
      (s.objects source).map fun f => s.setObject target (some f) s.uring
    else none
  | .copyAssign source target =>
    if s.objects target = none then none
    else (s.objects source).map fun f => s.setObject target (some f) s.uring
  | .assign o fd flag => (s.objects o).map fun f =>
    let (_,_,u) := f.assign s.uring fd flag
    { s with uring := u }
  | .returnBack o => (s.objects o).map fun f =>
    let (f,u) := f.returnBack s.uring
    s.setObject o (some f) u
  | .destroy o => (s.objects o).map fun f => s.setObject o none (f.destroy s.uring)
  | .connect c sockfd =>
    if s.connectors c = none then
      let (f,u) := TcpConnector.construct s.uring sockfd
      some (s.setConnector c (some f) u)
    else none
  | .copyConnector source target =>
    if s.connectors target = none then
      (s.connectors source).map fun f => s.setConnector target (some f) s.uring
    else none
  | .close c => (s.connectors c).map fun f =>
    let (f,u) := f.close s.uring
    s.setConnector c (some f) u
  | .destroyConnector c => (s.connectors c).map fun f => s.setConnector c none (f.fixedFd.destroy s.uring)

def machine : Machine (State Obj Conn) (Action Obj Conn) where
  start s := ∃ memory nulls, s = State.initial memory nulls
  step := step

end
end TinyCoro.Io
