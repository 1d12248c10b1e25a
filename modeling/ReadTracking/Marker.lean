import ReadTracking.Scope

/-!
# Read markers

A marker says that a scope was read up to a sequence.  It names the message it stands at and
remembers when it last moved.  A marker together with its slot is an entry, the unit that is
stored.
-/

set_option autoImplicit false

namespace ReadTracking

structure Mark where
  event : EventId
  sequence : Nat
  /-- When the marker moved here, in milliseconds. -/
  stamp : Nat
  deriving DecidableEq, Repr, Inhabited

structure Entry where
  slot : Slot
  mark : Mark
  deriving DecidableEq, Repr, Inhabited

namespace Entry

def room (e : Entry) : RoomId := e.slot.scope.room

def le (a b : Entry) : Bool :=
  !decide (KeyOrder.before (b.slot, b.mark.event, b.mark.sequence)
    (a.slot, a.mark.event, a.mark.sequence))

def sort (es : List Entry) : List Entry := es.mergeSort le

end Entry

end ReadTracking
