import ReadTracking.Table

/-!
# Rooms, events, users and scopes

Rooms, events and users are named by opaque texts that a server issues; each has a type of its
own, so one never stands in the place of another.  A scope is the unit of reading: the main
timeline of a room, or one of its threads.  A read marker occupies a slot, which is a scope
together with the visibility of the receipt it stands for.
-/

set_option autoImplicit false

namespace ReadTracking

structure RoomId where
  text : String
  deriving DecidableEq, Repr, Inhabited

structure EventId where
  text : String
  deriving DecidableEq, Repr, Inhabited

structure UserId where
  text : String
  deriving DecidableEq, Repr, Inhabited

instance : KeyOrder RoomId := .onInjective RoomId.text fun {a b} h => by
  cases a; cases b; simpa using h

instance : KeyOrder EventId := .onInjective EventId.text fun {a b} h => by
  cases a; cases b; simpa using h

instance : KeyOrder UserId := .onInjective UserId.text fun {a b} h => by
  cases a; cases b; simpa using h

/-- The main timeline of a room (`thread = none`) or the thread that hangs off a root event. -/
structure Scope where
  room : RoomId
  thread : Option EventId
  deriving DecidableEq, Repr, Inhabited

namespace Scope

def ofRoom (room : RoomId) : Scope := ⟨room, none⟩

def ofThread (room : RoomId) (root : EventId) : Scope := ⟨room, some root⟩

def isThread (s : Scope) : Bool := s.thread.isSome

def label (s : Scope) : String :=
  match s.thread with
  | none => s.room.text
  | some root => s.room.text ++ "/" ++ root.text

end Scope

instance : KeyOrder Scope := .onInjective (fun s => (s.room, s.thread)) fun {a b} h => by
  cases a; cases b; simpa using h

inductive Visibility where
  | shared
  | personal
  deriving DecidableEq, Repr, Inhabited

namespace Visibility

def word : Visibility → String
  | .shared => "Public"
  | .personal => "Private"

def ofWord? (w : String) : Option Visibility :=
  if w = "Public" then some .shared else if w = "Private" then some .personal else none

def tag : Visibility → UInt8
  | .shared => 0
  | .personal => 1

end Visibility

instance : KeyOrder Visibility := .onInjective Visibility.tag fun {a b} h => by
  cases a <;> cases b <;> first | rfl | exact absurd h (by decide)

structure Slot where
  scope : Scope
  visibility : Visibility
  deriving DecidableEq, Repr, Inhabited

instance : KeyOrder Slot := .onInjective (fun s => (s.scope, s.visibility)) fun {a b} h => by
  cases a; cases b; simpa using h

end ReadTracking
