import ReadTracking.Tally

/-!
# Listeners

Listeners are numbered in the order in which they subscribe, and no number is given twice.  A
state is delivered to every listener in that order.
-/

set_option autoImplicit false

namespace ReadTracking

structure Notice where
  listener : Nat
  state : RoomState
  deriving DecidableEq, Repr, Inhabited

structure Listeners where
  next : Nat := 0
  active : List Nat := []
  deriving DecidableEq, Repr, Inhabited

namespace Listeners

def subscribe (l : Listeners) : Listeners × Nat :=
  (⟨l.next + 1, l.active ++ [l.next]⟩, l.next)

def unsubscribe (l : Listeners) (n : Nat) : Listeners × Bool :=
  ({ l with active := l.active.filter (· != n) }, l.active.contains n)

def notices (l : Listeners) (state : RoomState) : List Notice :=
  l.active.map (⟨·, state⟩)

def size (l : Listeners) : Nat := l.active.length

def idText (n : Nat) : String := "SubscriptionId(" ++ toString n ++ ")"

def text (l : Listeners) : String := "ObserverList \x7b observers: " ++ toString l.size ++ " \x7d"

end Listeners

end ReadTracking
