import ReadTracking.Chronicle
import ReadTracking.MarkerBook

/-!
# What is unread

Only countable messages strictly after the effective marker of their scope count, and a marker
covers everything that shares its sequence.  A scope without a marker was never read.  A gap
after the marker makes the count at least one and flags the result as incomplete, so missing
messages are never reported as read.  A thread whose root is not indexed counts nothing.
-/

set_option autoImplicit false

namespace ReadTracking

structure ScopeCount where
  unread : Nat := 0
  highlights : Nat := 0
  incomplete : Bool := false
  deriving DecidableEq, Repr, Inhabited

structure ThreadState where
  root : EventId
  unread : Nat
  highlights : Nat
  hasUnread : Bool
  rootKnown : Bool
  incomplete : Bool
  deriving DecidableEq, Repr, Inhabited

def ThreadState.total (count : ThreadState → Nat) (threads : List ThreadState) : Nat :=
  threads.foldr (fun t n => count t + n) 0

structure RoomState where
  room : RoomId
  mainUnread : Nat
  mainHighlights : Nat
  threads : List ThreadState
  unread : Nat
  highlights : Nat
  isUnread : Bool
  incomplete : Bool
  deriving DecidableEq, Repr, Inhabited

namespace RoomState

def thread? (r : RoomState) (root : EventId) : Option ThreadState :=
  r.threads.find? (·.root == root)

def unreadThreads (r : RoomState) : List ThreadState := r.threads.filter (·.hasUnread)

end RoomState

section Counting

variable {σ : Type} (c : Chronicle) (b : MarkerBook σ)

def countScope (s : Scope) : ScopeCount :=
  let readTo := b.readTo s
  let pending := (c.eventsAfter s (readTo.map .past)).filter (·.countable)
  let gap := c.hasGapAfter s readTo
  { unread := if gap then max pending.length 1 else pending.length
    highlights := (pending.filter (·.highlight)).length
    incomplete := gap }

def ThreadState.ofCount (root : EventId) (known : Bool) (n : ScopeCount) : ThreadState :=
  ⟨root, n.unread, n.highlights, decide (0 < n.unread), known, n.incomplete⟩

def threadState (room : RoomId) (root : EventId) : Option ThreadState :=
  if c.rootKnown room root then
    some (.ofCount root true (countScope c b (.ofThread room root)))
  else if c.hasThread room root then some (.ofCount root false {})
  else none

def roomState (room : RoomId) : RoomState :=
  let main := countScope c b (.ofRoom room)
  let threads := (c.threads room).filterMap (threadState c b room)
  { room
    mainUnread := main.unread
    mainHighlights := main.highlights
    threads
    unread := main.unread + ThreadState.total (·.unread) threads
    highlights := main.highlights + ThreadState.total (·.highlights) threads
    isUnread := decide (0 < main.unread) || threads.any (·.hasUnread)
    incomplete := main.incomplete || threads.any (·.incomplete) }

end Counting

end ReadTracking
