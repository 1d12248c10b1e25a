import ReadTracking.Scope

/-!
# Messages and their places

A message is an event of a room as it was delivered; nothing ever changes it.  An edit is a
message of its own that names its target.  The place of an indexed message in its scope is its
`Position`: the number the server gave it, and among equals the order of arrival.  A `Cursor`
cuts a scope in two, either at a position or behind everything that carries a given number.
-/

set_option autoImplicit false

namespace ReadTracking

inductive Content where
  | plain
  | reply (target : EventId)
  | threadReply (root : EventId)
  | edit (target : EventId)
  | reaction (target : EventId) (key : String)
  | state (notify : Bool)
  | other
  deriving DecidableEq, Repr, Inhabited

def Content.relatesTo : Content → Option EventId
  | .reply target | .edit target | .reaction target _ => some target
  | .threadReply root => some root
  | .plain | .state _ | .other => none

structure Message where
  id : EventId
  room : RoomId
  sender : UserId
  sequence : Nat
  content : Content
  highlight : Bool
  deriving DecidableEq, Repr, Inhabited

structure Position where
  sequence : Nat
  arrival : Nat
  deriving DecidableEq, Repr, Inhabited

instance : KeyOrder Position := .onInjective (fun p => (p.sequence, p.arrival)) fun {a b} h => by
  cases a; cases b; simpa using h

inductive Cursor where
  | here (p : Position)
  | past (sequence : Nat)
  deriving DecidableEq, Repr, Inhabited

namespace Cursor

def sequence : Cursor → Nat
  | .here p => p.sequence
  | .past q => q

def arrival? : Cursor → Option Nat
  | .here p => some p.arrival
  | .past _ => none

def isBefore (c : Cursor) (p : Position) : Bool :=
  match c with
  | .here p' => decide (KeyOrder.before p' p)
  | .past q => decide (q < p.sequence)

def le : Cursor → Cursor → Bool
  | .here p, .here p' => !decide (KeyOrder.before p' p)
  | .here p, .past q => decide (p.sequence ≤ q)
  | .past q, .here p => decide (q < p.sequence)
  | .past q, .past q' => decide (q ≤ q')

def sort (cs : List Cursor) : List Cursor := cs.mergeSort le

end Cursor

end ReadTracking
