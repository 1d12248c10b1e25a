import ReadTracking.Ambient
import ReadTracking.Listeners
import ReadTracking.SendQueue

/-!
# The tracker

The tracker keeps, for one local user, the chronicle of messages, the marker book and the queue
of receipts to send.  It knows what the user is looking at, which jump waits for its messages,
which receipts wait for their message, and what it last reported about every room.
-/

set_option autoImplicit false

namespace ReadTracking

inductive Reach where
  | scope
  | room
  deriving DecidableEq, Repr, Inhabited

inductive Refusal where
  | unknownThread (room : RoomId) (root : EventId)
  | inThread (event root : EventId)
  | storage (why : StorageError)
  deriving DecidableEq, Repr, Inhabited

def Refusal.message : Refusal → String
  | .unknownThread room root => "unknown thread " ++ root.text ++ " in room " ++ room.text
  | .inThread event root => "event " ++ event.text ++ " belongs to thread " ++ root.text
  | .storage why => "storage error: " ++ why.message

inductive Action where
  | send (scope : Scope) (event : EventId) (visibility : Visibility)
  | fetch (request : Nat) (room : RoomId) (event : EventId)
  | unsaved (scope : Scope) (visibility : Visibility) (why : StorageError)
  deriving DecidableEq, Repr, Inhabited

structure Focus where
  room : RoomId
  thread : Option EventId
  live : Bool
  deriving DecidableEq, Repr, Inhabited

structure Awaited where
  request : Nat
  room : RoomId
  event : EventId
  includeThreads : Bool
  deriving DecidableEq, Repr, Inhabited

structure Held where
  room : RoomId
  receipts : List (Visibility × Reach)
  deriving DecidableEq, Repr, Inhabited

def Held.add (h : Held) (receipt : Visibility × Reach) : Held :=
  if receipt ∈ h.receipts then h else { h with receipts := h.receipts ++ [receipt] }

structure Tracker (σ : Type) where
  ambient : Ambient
  policy : Policy
  reader : UserId
  chronicle : Chronicle
  book : MarkerBook σ
  sends : SendQueue
  listeners : Listeners
  reported : Table RoomId RoomState
  focus : Option Focus
  awaited : Option Awaited
  held : Table EventId Held
  deriving DecidableEq, Inhabited

namespace Tracker

variable {σ : Type}

def fresh (ambient : Ambient) (policy : Policy) (reader : UserId) (book : MarkerBook σ) :
    Tracker σ where
  ambient
  policy
  reader
  chronicle := .empty (.of reader policy)
  book
  sends := .empty policy.debounce
  listeners := {}
  reported := .empty
  focus := none
  awaited := none
  held := .empty

def openOver [Backing σ] (ambient : Ambient) (policy : Policy) (reader : UserId) (storage : σ) :
    Except Refusal (Tracker σ) × σ :=
  match MarkerBook.openOver storage with
  | (.ok book, s) => (.ok (fresh ambient policy reader book), s)
  | (.error why, s) => (.error (.storage why), s)

def roomState (t : Tracker σ) (room : RoomId) : RoomState :=
  ReadTracking.roomState t.chronicle t.book room

def threadState (t : Tracker σ) (room : RoomId) (root : EventId) : Option ThreadState :=
  ReadTracking.threadState t.chronicle t.book room root

def sendVisibility (t : Tracker σ) : Visibility :=
  if t.policy.sendShared then .shared else .personal

def maxHeld : Nat := 4096

def subscribe (t : Tracker σ) : Tracker σ × Nat :=
  let (listeners, n) := t.listeners.subscribe
  ({ t with listeners }, n)

def unsubscribe (t : Tracker σ) (n : Nat) : Tracker σ × Bool :=
  let (listeners, known) := t.listeners.unsubscribe n
  ({ t with listeners }, known)

end Tracker

end ReadTracking
