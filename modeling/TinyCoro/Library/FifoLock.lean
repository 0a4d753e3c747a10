import TinyCoro.Library.Machine

/-! A lock that is granted first come, first served: an optional owner and the
queue of those that wait. `requested` and `granted` are the histories of the
requests and of the grants. -/
namespace TinyCoro.Library

structure FifoLock (Waiter : Type*) where
  owner : Option Waiter
  queue : List Waiter
  requested : List Waiter
  granted : List Waiter

namespace FifoLock
variable {Waiter : Type*} [DecidableEq Waiter]

inductive Event (Waiter : Type*)
  | acquire (w : Waiter)
  | enqueue (w : Waiter)
  | fail (w : Waiter)
  | release (w : Waiter)

/-- A release hands the lock to the first of the queue. -/
def step (l : FifoLock Waiter) : Event Waiter → Option (FifoLock Waiter)
  | .acquire w =>
    if l.owner = none ∧ l.queue = [] then
      some { l with owner := some w, requested := l.requested ++ [w], granted := l.granted ++ [w] }
    else none
  | .enqueue w =>
    if l.owner = none then none else some { l with queue := l.queue ++ [w], requested := l.requested ++ [w] }
  | .fail _ => if l.owner = none then none else some l
  | .release w =>
    if l.owner = some w then
      match l.queue with
      | [] => some { l with owner := none }
      | next::rest => some { l with owner := some next, queue := rest, granted := l.granted ++ [next] }
    else none

def free : FifoLock Waiter := ⟨none,[],[],[]⟩

def machine (Waiter : Type*) [DecidableEq Waiter] : Machine (FifoLock Waiter) (Event Waiter) := ⟨fun l => l = free,step⟩

/-- Nobody waits for a free lock, and the grants are the requests so far in
their order, less those that still wait. -/
def Fair (l : FifoLock Waiter) : Prop := (l.owner = none → l.queue = []) ∧ l.requested = l.granted ++ l.queue

theorem Fair.step {l l' : FifoLock Waiter} {e : Event Waiter} (fair : Fair l) (moved : l.step e = some l') : Fair l' := by
  obtain ⟨bare,order⟩ := fair
  cases e with
  | acquire w =>
    simp only [FifoLock.step] at moved
    split at moved
    next idle =>
      cases moved
      exact ⟨fun _ => idle.2,by simp [order,idle.2]⟩
    next => contradiction
  | enqueue w =>
    simp only [FifoLock.step] at moved
    split at moved
    next => contradiction
    next held =>
      cases moved
      exact ⟨fun idle => absurd idle held,by simp [order]⟩
  | fail w =>
    simp only [FifoLock.step] at moved
    split at moved
    next => contradiction
    next => cases moved; exact ⟨bare,order⟩
  | release w =>
    simp only [FifoLock.step] at moved
    split at moved
    next =>
      split at moved
      next none => cases moved; exact ⟨fun _ => none,order⟩
      next next rest some =>
        cases moved
        exact ⟨fun idle => by simp at idle,by simp [order,some]⟩
    next => contradiction

end FifoLock
end TinyCoro.Library
