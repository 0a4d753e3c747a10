/-! A loop over a queue of limited length. Each push is counted in a counter that must
stay below a limit. A round takes a snapshot of the queue and runs as many tasks; then
it reads the counter, which sets it back, or goes round again without. -/
namespace TinyCoro.Library.CountedLoop

/-- Where the loop is; `due` between a push and its count. -/
inductive Stage
  | head
  | tasks (left : Nat) (due : Bool)
  | tail
  | reaping (due : Bool)

/-- `counted` are the pushes counted since the last read. -/
structure Turn where
  stage : Stage
  queue : Nat
  counted : Nat

inductive Label
  | push
  | again
  | other

inductive Tick (cap limit : Nat) : Label → Turn → Turn → Prop
  | stay (v : Turn) : Tick cap limit .other v v
  | snapshot (q n : Nat) : Tick cap limit .other ⟨.head,q,n⟩ ⟨.tasks q false,q,n⟩
  | pop (left q n : Nat) : Tick cap limit .other ⟨.tasks (left+1) false,q+1,n⟩ ⟨.tasks left false,q,n⟩
  | push (left q n : Nat) (room : q < cap) : Tick cap limit .push ⟨.tasks left false,q,n⟩ ⟨.tasks left true,q+1,n⟩
  | count (left q n : Nat) (short : n + 1 < limit) :
    Tick cap limit .other ⟨.tasks left true,q,n⟩ ⟨.tasks left false,q,n+1⟩
  | leave (q n : Nat) : Tick cap limit .other ⟨.tasks 0 false,q,n⟩ ⟨.tail,q,n⟩
  | again (q n : Nat) : Tick cap limit .again ⟨.tail,q,n⟩ ⟨.head,q,n⟩
  | read (q n : Nat) : Tick cap limit .other ⟨.tail,q,n⟩ ⟨.head,q,0⟩
  | readReap (q n : Nat) : Tick cap limit .other ⟨.tail,q,n⟩ ⟨.reaping false,q,0⟩
  | reap (q n : Nat) (room : q < cap) : Tick cap limit .other ⟨.reaping false,q,n⟩ ⟨.reaping true,q+1,n⟩
  | countReaped (q n : Nat) (short : n + 1 < limit) :
    Tick cap limit .other ⟨.reaping true,q,n⟩ ⟨.reaping false,q,n+1⟩
  | reaped (q n : Nat) : Tick cap limit .other ⟨.reaping false,q,n⟩ ⟨.head,q,n⟩

def Stage.due : Stage → Nat
  | .tasks _ true | .reaping true => 1
  | _ => 0

def Turn.load (v : Turn) : Nat := v.counted + v.stage.due

/-- How many pushes are possible before the loop reads or goes round again. -/
def Turn.budget (cap : Nat) (v : Turn) : Nat :=
  match v.stage with
  | .head => cap
  | .tasks left _ => cap - v.queue + left
  | _ => 0

/-- While the loop reaps, all that is counted stands in the queue. -/
structure Turn.Sound (cap limit : Nat) (v : Turn) : Prop where
  queue : v.queue ≤ cap
  short : v.counted < limit
  reaping : ∀ due, v.stage = .reaping due → v.load ≤ v.queue

/-- The rest of the round fits into the counter. -/
def Turn.Affords (cap limit : Nat) (v : Turn) : Prop :=
  match v.stage with
  | .reaping _ => True
  | _ => v.load + v.budget cap < limit

section
variable {cap limit : Nat} {l : Label} {v v' : Turn}

theorem Tick.sound (tick : Tick cap limit l v v') (sound : v.Sound cap limit) : v'.Sound cap limit := by
  obtain ⟨queue,short,reaping⟩ := sound
  cases tick with
  | stay => exact ⟨queue,short,reaping⟩
  | snapshot q n | leave q n | again q n | reaped q n => exact ⟨queue,short,fun _ h => by cases h⟩
  | pop left q n => exact ⟨Nat.le_of_succ_le queue,short,fun _ h => by cases h⟩
  | push left q n room => exact ⟨room,short,fun _ h => by cases h⟩
  | count left q n short' => exact ⟨queue,short',fun _ h => by cases h⟩
  | read q n => exact ⟨queue,Nat.zero_lt_of_lt short,fun _ h => by cases h⟩
  | readReap q n => exact ⟨queue,Nat.zero_lt_of_lt short,fun _ _ => Nat.zero_le q⟩
  | reap q n room => exact ⟨room,short,fun _ _ => Nat.succ_le_succ (reaping false rfl)⟩
  | countReaped q n short' => exact ⟨queue,short',fun _ _ => reaping true rfl⟩

theorem Tick.load_lt (tick : Tick cap limit l v v') (fits : cap < limit) (sound : v.Sound cap limit)
    (before : v.load < limit) : v'.load < limit ↔ (l = .push → v.load + 1 < limit) := by
  have after := (tick.sound sound).reaping
  have queue := (tick.sound sound).queue
  cases tick with
  | push left q n room =>
    constructor
    · intro here _
      exact here
    · intro here
      exact here rfl
  | reap q n room =>
    have stands := after true rfl
    refine iff_of_true (Nat.lt_of_le_of_lt stands (Nat.lt_of_le_of_lt queue fits)) ?_
    intro other
    contradiction
  | read q n | readReap q n =>
    refine iff_of_true (Nat.zero_lt_of_lt before) ?_
    intro other
    contradiction
  | _ =>
    refine iff_of_true before ?_
    intro other
    contradiction

/-- A loop that reads, and goes round again only while another round fits, affords all
of its pushes. -/
theorem Tick.affords (tick : Tick cap limit l v v') (fits : 2 * cap < limit) (sound : v.Sound cap limit)
    (before : v.Affords cap limit) (again : l = .again → v.load + cap < limit) : v'.Affords cap limit := by
  have queue := sound.queue
  cases tick with
  | stay => exact before
  | snapshot q n =>
    simp only [Turn.Affords,Turn.load,Turn.budget,Stage.due] at before queue ⊢
    omega
  | pop left q n | push left q n room | count left q n short | leave q n =>
    simp only [Turn.Affords,Turn.load,Turn.budget,Stage.due] at before queue ⊢
    omega
  | again q n => exact again rfl
  | read q n =>
    simp only [Turn.Affords,Turn.load,Turn.budget,Stage.due]
    omega
  | readReap q n | reap q n room | countReaped q n short => trivial
  | reaped q n =>
    have stands := sound.reaping false rfl
    simp only [Turn.Affords,Turn.load,Turn.budget,Stage.due] at stands queue ⊢
    omega

theorem Turn.Affords.load_lt (affords : v.Affords cap limit) (fits : cap < limit) (sound : v.Sound cap limit) :
    v.load < limit := by
  cases here : v.stage with
  | reaping due =>
    have stands := sound.reaping due here
    exact Nat.lt_of_le_of_lt stands (Nat.lt_of_le_of_lt sound.queue fits)
  | _ =>
    rw [Turn.Affords,here] at affords
    exact Nat.lt_of_le_of_lt (Nat.le_add_right _ _) affords

theorem Tick.push_affords (tick : Tick cap limit .push v v') (affords : v.Affords cap limit) (queue : v.queue ≤ cap) :
    v.load + 1 < limit := by
  cases tick with
  | push left q n room =>
    simp only [Turn.Affords,Turn.load,Turn.budget,Stage.due] at affords ⊢
    omega

end
end TinyCoro.Library.CountedLoop
