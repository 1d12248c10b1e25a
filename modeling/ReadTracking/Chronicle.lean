import ReadTracking.Countable
import ReadTracking.Strand

/-!
# The chronicle of loaded messages

The chronicle indexes every message that was ever delivered.  A thread reply belongs to the
thread of its root, and the first reply makes the thread.  An edit or a reaction belongs to the
scope of its target, or to the main timeline if the target is not indexed in the same room.
Everything else, thread roots included, belongs to the main timeline.

A limited batch skips messages: it leaves a gap just before its first new message, in the main
timeline and in every thread that existed before the batch.  A gap goes away when the missing
stretch is delivered.
-/

set_option autoImplicit false

namespace ReadTracking

structure Indexed where
  message : Message
  position : Position
  scope : Scope
  verdict : Verdict
  deriving DecidableEq, Repr, Inhabited

namespace Indexed

def countable (e : Indexed) : Bool := e.verdict.countable

def highlight (e : Indexed) : Bool := e.countable && e.message.highlight

end Indexed

structure Placed where
  id : EventId
  scope : Scope
  position : Position
  opensThread : Bool
  deriving DecidableEq, Repr, Inhabited

structure Chronicle where
  judge : Judge
  events : Table EventId Indexed
  rooms : Table RoomId RoomLog
  nextArrival : Nat
  deriving DecidableEq, Inhabited

namespace Chronicle

def empty (judge : Judge) : Chronicle := ⟨judge, .empty, .empty, 0⟩

/-! ## Looking things up -/

def get? (c : Chronicle) (id : EventId) : Option Indexed := c.events.get? id

def position? (c : Chronicle) (id : EventId) : Option Position := (c.get? id).map (·.position)

def scope? (c : Chronicle) (id : EventId) : Option Scope := (c.get? id).map (·.scope)

def strand? (c : Chronicle) (s : Scope) : Option Strand :=
  (c.rooms.get? s.room).bind fun log => log.strand? s.thread

def lastGap (c : Chronicle) (s : Scope) : Option Nat := (c.strand? s).bind Strand.lastGap

def hasGapAfter (c : Chronicle) (s : Scope) (after : Option Nat) : Bool :=
  match c.strand? s with
  | none => false
  | some strand => strand.hasGapAfter after

def eventsAfter (c : Chronicle) (s : Scope) (cursor : Option Cursor) : List Indexed :=
  match c.strand? s with
  | none => []
  | some strand => (strand.after cursor).filterMap c.get?

def latest (c : Chronicle) (s : Scope) : Option Indexed :=
  ((c.strand? s).bind Strand.latest).bind c.get?

def floor (c : Chronicle) (s : Scope) (sequence : Nat) : Option Indexed :=
  ((c.strand? s).bind (·.floor sequence)).bind c.get?

def scopeLength (c : Chronicle) (s : Scope) : Nat :=
  match c.strand? s with
  | none => 0
  | some strand => strand.length

/-- Where a thread stands among the threads of its room: at its root if the root is indexed,
otherwise at its first reply. -/
def anchor (c : Chronicle) (root : EventId) (strand : Strand) : Option Position :=
  (c.position? root).orElse fun _ => strand.firstPosition

def threads (c : Chronicle) (room : RoomId) : List EventId :=
  match c.rooms.get? room with
  | none => []
  | some log =>
    let anchored := log.threads.entries.map fun e => ((c.anchor e.1 e.2, e.1), ())
    (Table.ofList anchored).keys.map (·.2)

def hasThread (c : Chronicle) (room : RoomId) (root : EventId) : Bool :=
  match c.rooms.get? room with
  | none => false
  | some log => log.threads.contains root

def rootKnown (c : Chronicle) (room : RoomId) (root : EventId) : Bool :=
  match c.get? root with
  | none => false
  | some e => e.message.room == room

def scopes (c : Chronicle) (room : RoomId) : List Scope :=
  .ofRoom room :: (c.threads room).map (.ofThread room)

def size (c : Chronicle) : Nat := c.events.size

/-! ## Indexing messages -/

def scopeFor (c : Chronicle) (m : Message) : Scope :=
  match m.content with
  | .threadReply root => .ofThread m.room root
  | .edit target | .reaction target _ =>
    match c.get? target with
    | some e => if e.message.room = m.room then e.scope else .ofRoom m.room
    | none => .ofRoom m.room
  | .plain | .reply _ | .state _ | .other => .ofRoom m.room

def placing (c : Chronicle) (m : Message) : Placed :=
  let scope := c.scopeFor m
  { id := m.id
    scope
    position := ⟨m.sequence, c.nextArrival⟩
    opensThread := match scope.thread with
      | none => false
      | some root => !c.hasThread m.room root }

def append (c : Chronicle) (m : Message) : Chronicle × Option Placed :=
  if c.events.contains m.id then (c, none)
  else
    let placed := c.placing m
    let log := (c.rooms.get? m.room).getD .empty
    ({ c with
        events := c.events.insert m.id
          ⟨m, placed.position, placed.scope, c.judge.verdict m⟩
        rooms := c.rooms.insert m.room
          (log.add placed.scope.thread placed.position m.id)
        nextArrival := c.nextArrival + 1 },
      some placed)

def appendAll (room : RoomId) : List Message → Chronicle → Chronicle × List Placed
  | [], c => (c, [])
  | m :: ms, c =>
    if m.room = room then
      let (c, placed) := c.append m
      let (c, rest) := appendAll room ms c
      (c, placed.toList ++ rest)
    else appendAll room ms c

def openGap (c : Chronicle) (room : RoomId) (roots : List EventId) (sequence : Nat) :
    Chronicle :=
  let log := (c.rooms.get? room).getD .empty
  { c with rooms := c.rooms.insert room (log.openGap roots sequence) }

def ingest (c : Chronicle) (room : RoomId) (batch : List Message) (limited : Bool) :
    Chronicle × List Placed :=
  let roots := match c.rooms.get? room with
    | none => []
    | some log => log.threads.keys
  let (c, placed) := c.appendAll room batch
  match limited, (placed.map (·.position.sequence)).min? with
  | true, some first => (c.openGap room roots first, placed)
  | _, _ => (c, placed)

def closeGap (c : Chronicle) (room : RoomId) (sequence : Nat) : Chronicle × Bool :=
  match c.rooms.get? room with
  | none => (c, false)
  | some log =>
    ({ c with rooms := c.rooms.insert room (log.closeGap sequence) }, log.hasGap sequence)

def forget (c : Chronicle) (room : RoomId) : Chronicle × Nat :=
  if c.rooms.contains room then
    let kept := c.events.filter fun _ e => e.message.room != room
    ({ c with rooms := c.rooms.erase room, events := kept }, c.events.size - kept.size)
  else (c, 0)

end Chronicle

end ReadTracking
