import TinyCoro.Context.Worker

/-! The calls of the engine against the rings of io_uring. The kernel accepts any
part of the submission ring at a submit, and completes accepted operations in any
order between the calls. -/
namespace TinyCoro.Engine
open Library Context

/-- `config::kEntryLength`, the length of the submission ring asked for. -/
def kEntryLength : Nat := 10240

/-- One call of `peek_batch_cqe`: its argument, and how many entries of `m_urc`
it has filled. -/
structure Peek where
  count : Nat
  num : Nat
  deriving DecidableEq

/-- `waiting` is inside `poll_submit` at `wait_eventfd`. `peeks` is a history. The
length of `m_urc` is `kQueCap`. -/
structure State (Op : Type) where
  sq : List Op
  inKernel : List Op
  cq : List Op
  numIoWaitSubmit : Nat
  numIoRunning : Nat
  efd : Nat
  waiting : Bool
  peeks : List Peek
  deriving DecidableEq

/-- `ret` is what `io_uring_submit` returns if it is called. -/
inductive Action (Op : Type)
  | addIoSubmit (op : Op)
  | doIoSubmit (ret : Int)
  | pollSubmit (ret : Int)
  | wakeUp (val : Nat)
  | complete (i : Nat)
  | waitEventfd

variable {Op : Type}

/-- The kernel takes what `io_uring_submit` reports; a negative errno is none. -/
def State.submit (s : State Op) (ret : Int) : State Op :=
  { s with
    inKernel := s.inKernel ++ s.sq.take ret.toNat
    sq := s.sq.drop ret.toNat }

def State.doIoSubmit (s : State Op) (ret : Int) : State Op :=
  if 0 < s.numIoWaitSubmit then
    { s.submit ret with
      numIoRunning := s.numIoRunning + s.numIoWaitSubmit
      numIoWaitSubmit := 0 }
  else s

/-- `poll_submit` after a read of the eventfd that saw a completion: the reaping
loop and `cq_advance`. The argument of `peek_batch_cqe` is an `unsigned int`. -/
def State.reap (s : State Op) : State Op :=
  let count := s.numIoRunning % 2^32
  let num := min s.cq.length count
  { s with
    cq := s.cq.drop num
    numIoRunning := s.numIoRunning - num
    peeks := s.peeks ++ [⟨count,num⟩] }

/-- `entries` is the length of the submission ring: `get_free_urs` gives no entry
when it is full. -/
def step (entries : Nat) (s : State Op) : Action Op → Option (State Op)
  | .addIoSubmit op =>
    if s.waiting = false ∧ s.sq.length < entries then
      some { s with sq := s.sq ++ [op], numIoWaitSubmit := s.numIoWaitSubmit + 1 }
    else none
  | .doIoSubmit ret =>
    if s.waiting = false ∧ ret ≤ s.sq.length then some (s.doIoSubmit ret) else none
  | .pollSubmit ret =>
    if s.waiting = false ∧ ret ≤ s.sq.length then some { s.doIoSubmit ret with waiting := true } else none
  | .wakeUp val => some { s with efd := s.efd + val }
  | .complete i =>
    match s.inKernel[i]? with
    | none => none
    | some op => some { s with inKernel := s.inKernel.eraseIdx i, cq := s.cq ++ [op], efd := s.efd + 1 }
  | .waitEventfd =>
    if s.waiting = true ∧ 0 < s.efd then
      let woken := { s with efd := 0, waiting := false }
      some (if wakeByCqe s.efd then woken.reap else woken)
    else none

def Fresh (s : State Op) : Prop :=
  s.sq = [] ∧ s.inKernel = [] ∧ s.cq = [] ∧ s.numIoWaitSubmit = 0 ∧ s.numIoRunning = 0 ∧ s.efd = 0 ∧
    s.waiting = false ∧ s.peeks = []

def machine (Op : Type) (entries : Nat) : Machine (State Op) (Action Op) := ⟨Fresh,step entries⟩

def initial : State Nat := ⟨[],[],[],0,0,0,false,[]⟩

theorem initial_fresh : Fresh initial := by simp [Fresh,initial]

end TinyCoro.Engine
