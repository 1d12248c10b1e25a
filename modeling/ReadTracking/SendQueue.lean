import ReadTracking.Scope

/-!
# The send queue

Advances of markers are not sent at once.  Sends for one slot join into the newest of them, and
the joint send becomes due when the debounce has passed since the first of them was queued.
-/

set_option autoImplicit false

namespace ReadTracking

structure Queued where
  event : EventId
  sequence : Nat
  since : Nat
  deriving DecidableEq, Repr, Inhabited

structure Outgoing where
  slot : Slot
  event : EventId
  deriving DecidableEq, Repr, Inhabited

structure SendQueue where
  debounce : Nat
  pending : Table Slot Queued
  deriving DecidableEq, Inhabited

namespace SendQueue

def empty (debounce : Nat) : SendQueue := ⟨debounce, .empty⟩

def joined (q : Queued) (event : EventId) (sequence : Nat) : Queued :=
  if q.sequence < sequence then { q with event, sequence } else q

def queue (s : SendQueue) (slot : Slot) (event : EventId) (sequence now : Nat) : SendQueue :=
  let entry := match s.pending.get? slot with
    | some q => joined q event sequence
    | none => ⟨event, sequence, now⟩
  { s with pending := s.pending.insert slot entry }

def isDue (s : SendQueue) (now : Nat) (q : Queued) : Bool :=
  decide (q.since ≤ now) && decide (s.debounce ≤ now - q.since)

def release (s : SendQueue) (now : Nat) : SendQueue × List Outgoing :=
  ({ s with pending := s.pending.filter fun _ q => !s.isDue now q },
    (s.pending.filter fun _ q => s.isDue now q).entries.map fun p => ⟨p.1, p.2.event⟩)

def waiting? (s : SendQueue) (slot : Slot) : Option Queued := s.pending.get? slot

def forget (s : SendQueue) (room : RoomId) : SendQueue :=
  { s with pending := s.pending.filter fun slot _ => slot.scope.room != room }

def size (s : SendQueue) : Nat := s.pending.size

end SendQueue

end ReadTracking
