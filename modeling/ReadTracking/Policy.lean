/-!
# What counts, what is sent and when

A `Policy` holds the choices that an application makes once, before it starts tracking.
-/

set_option autoImplicit false

namespace ReadTracking

structure Policy where
  countEdits : Bool := false
  countNotifyingState : Bool := true
  ownMessagesRead : Bool := true
  sendShared : Bool := true
  /-- How long a receipt waits for a newer one before it is sent, in nanoseconds. -/
  debounce : Nat := 0
  deriving DecidableEq, Repr, Inhabited

end ReadTracking
