import ReadTracking.Reference.Gesture
import ReadTracking.Session.Move
import ReadTracking.Table

/-!
# A plain account of reading

This is read tracking at its plainest: every room is the list of what happened in it, every
scope has one marker, and unread counts are found by going through the list.  It says what a
tracker must show after any gestures, and it resolves gestures into moves of a session.
-/

set_option autoImplicit false

namespace ReadTracking.Reference

inductive Role where
  | join
  | botMessage
  | ownMessage
  | threadReply
  | relation
  deriving DecidableEq, Repr, Inhabited

structure Happening where
  body : Option String
  sequence : Nat
  /-- The place of the thread's root in the room; without one, the main timeline. -/
  thread : Option Nat
  role : Role
  deriving DecidableEq, Repr, Inhabited

namespace Happening

def countable (h : Happening) : Bool := h.role == .botMessage || h.role == .threadReply

def targetable (h : Happening) : Bool :=
  h.role == .botMessage || h.role == .ownMessage || h.role == .threadReply

def canRoot (h : Happening) : Bool := h.role == .botMessage || h.role == .ownMessage

def label (h : Happening) : String := h.body.getD ""

end Happening

structure RoomView where
  room : String
  mainUnread : Nat
  unread : Nat
  isUnread : Bool
  threads : List (String × Nat)
  deriving DecidableEq, Repr, Inhabited

/-- A room: what happened in it, and how far every scope is read.  The main timeline is the
scope without a root. -/
structure Room where
  happenings : List Happening
  marks : Table (Option Nat) Nat
  deriving DecidableEq, Inhabited

namespace Room

def inScope (r : Room) (thread : Option Nat) : List Happening :=
  r.happenings.filter (·.thread == thread)

def head (r : Room) (thread : Option Nat) : Option Nat :=
  ((r.inScope thread).map (·.sequence)).max?

def advance (r : Room) (thread : Option Nat) (sequence : Nat) : Room :=
  { r with marks := r.marks.insert thread (match r.marks.get? thread with
      | some mark => max mark sequence
      | none => sequence) }

def advanceToHead (r : Room) (thread : Option Nat) : Room :=
  match r.head thread with
  | some sequence => r.advance thread sequence
  | none => r

def count (r : Room) (thread : Option Nat) : Nat :=
  (r.inScope thread).countP fun h => h.countable &&
    match r.marks.get? thread with
    | some mark => decide (mark < h.sequence)
    | none => true

def roots (r : Room) : List Nat :=
  (Table.ofList ((r.happenings.filterMap (·.thread)).map (·, ()))).keys

def labelAt (r : Room) (place : Nat) : String := (r.happenings[place]?.map (·.label)).getD ""

def threadCounts (r : Room) : List (String × Nat) :=
  (r.roots.map fun root => (r.labelAt root, r.count (some root))).mergeSort
    fun a b => !decide (KeyOrder.before b a)

def view (r : Room) (name : String) : RoomView :=
  let threads := r.threadCounts
  let mainUnread := r.count none
  let threadUnread := threads.foldr (fun t n => t.2 + n) 0
  { room := name
    mainUnread
    unread := mainUnread + threadUnread
    isUnread := decide (0 < mainUnread) || decide (0 < threadUnread)
    threads }

def pick (r : Room) (n : UInt8) (fits : Happening → Bool) : Option (Happening × Nat) :=
  let candidates := r.happenings.zipIdx.filter fun p => fits p.1
  candidates[n.toNat % candidates.length]?

end Room

def roomCount : Nat := 3

def roomOf (n : UInt8) : Fin roomCount := ⟨n.toNat % roomCount, Nat.mod_lt _ (by decide)⟩

def roomName (i : Fin roomCount) : String := "room" ++ toString i.val

structure Gaze where
  room : Fin roomCount
  thread : Option Nat
  live : Bool
  deriving DecidableEq, Repr

structure World where
  rooms : Vector Room roomCount
  gaze : Option Gaze
  nextSequence : Nat
  labels : Nat
  deriving DecidableEq, Inhabited

inductive Resolved where
  | skipped
  | accepted (move : Move)
  | rejected (move : Move)
  deriving DecidableEq, Repr, Inhabited

namespace World

def joinedRoom (sequence : Nat) : Room where
  happenings := [⟨none, sequence, none, .join⟩]
  marks := .ofList [(none, sequence)]

def start : World where
  rooms := Vector.ofFn fun i => joinedRoom (i.val + 1)
  gaze := none
  nextSequence := roomCount + 1
  labels := 0

def change (w : World) (i : Fin roomCount) (f : Room → Room) : World :=
  { w with rooms := w.rooms.set i (f w.rooms[i]) }

def newLabel (w : World) (stem : String) : World × String :=
  ({ w with labels := w.labels + 1 }, stem ++ toString (w.labels + 1))

def watches (w : World) (i : Fin roomCount) (thread : Option Nat) : Bool :=
  match w.gaze with
  | some g => g.room == i && g.live && (thread.isNone || g.thread == thread)
  | none => false

def happen (w : World) (i : Fin roomCount) (body : Option String) (thread : Option Nat)
    (role : Role) : World :=
  let sequence := w.nextSequence
  let watched := w.watches i thread
  let happening : Happening := ⟨body, sequence, thread, role⟩
  let w := { w with nextSequence := sequence + 1 }
  w.change i fun r =>
    let r := { r with happenings := r.happenings ++ [happening] }
    if watched then r.advance thread sequence else r

def withTarget (w : World) (i : Fin roomCount) (n : UInt8) (fits : Happening → Bool)
    (f : Happening → Nat → World × Resolved) : World × Resolved :=
  match w.rooms[i].pick n fits with
  | some (h, place) => f h place
  | none => (w, .skipped)

def thumb : String := "👍"

def apply (w : World) : Gesture → World × Resolved
  | .botMessage n =>
    let i := roomOf n
    let (w, body) := w.newLabel "m"
    (w.happen i body none .botMessage, .accepted (.botSends (roomName i) [.plain body]))
  | .botThreadReply n root =>
    let i := roomOf n
    w.withTarget i root (·.canRoot) fun h place =>
      let (w, body) := w.newLabel "t"
      (w.happen i body place .threadReply,
        .accepted (.botSends (roomName i) [.threadReply h.label body]))
  | .botReaction n target =>
    let i := roomOf n
    w.withTarget i target (·.targetable) fun h _ =>
      (w.happen i none h.thread .relation,
        .accepted (.botSends (roomName i) [.reaction h.label thumb]))
  | .botEdit n target =>
    let i := roomOf n
    w.withTarget i target (·.targetable) fun h _ =>
      let (w, body) := w.newLabel "e"
      (w.happen i body h.thread .relation,
        .accepted (.botSends (roomName i) [.edit h.label body]))
  | .ownMessage n =>
    let i := roomOf n
    let (w, body) := w.newLabel "o"
    let sequence := w.nextSequence
    ((w.happen i body none .ownMessage).change i (·.advance none sequence),
      .accepted (.userSends (roomName i) [.plain body]))
  | .enter n =>
    let i := roomOf n
    let w := { w with gaze := some ⟨i, none, true⟩ }
    (w.change i (·.advanceToHead none), .accepted (.enter (roomName i)))
  | .openThread n =>
    match w.gaze with
    | none => (w, .skipped)
    | some g =>
      let room := w.rooms[g.room]
      let roots := room.roots
      match roots[n.toNat % roots.length]? with
      | none => (w, .skipped)
      | some root =>
        let w := { w with gaze := some ⟨g.room, some root, true⟩ }
        let w := w.change g.room (·.advanceToHead (some root))
        let w := match room.happenings[root]? with
          | some h => w.change g.room (·.advance none h.sequence)
          | none => w
        (w, .accepted (.openThread (room.labelAt root)))
  | .closeThread =>
    ({ w with gaze := w.gaze.map fun g => { g with thread := none } }, .accepted .closeThread)
  | .leave => ({ w with gaze := none }, .accepted .leave)
  | .markRead n =>
    let i := roomOf n
    (w.change i fun r =>
      r.roots.foldl (fun r root => r.advanceToHead (some root)) (r.advanceToHead none),
      .accepted (.markRead (roomName i)))
  | .readElsewhere n target =>
    let i := roomOf n
    w.withTarget i target (·.targetable) fun h _ =>
      (w.change i (·.advance h.thread h.sequence),
        .accepted (.readElsewhere (roomName i) h.label .scope))
  | .memberReads n target =>
    let i := roomOf n
    w.withTarget i target (·.targetable) fun h _ =>
      (w, .accepted (.memberReads (roomName i) h.label))
  | .jump n target includeThreads =>
    let i := roomOf n
    w.withTarget i target (·.targetable) fun h _ =>
      let move := .jump (roomName i) h.label includeThreads
      if h.thread.isSome && !includeThreads then (w, .rejected move)
      else
        let live := w.rooms[i].head h.thread == some h.sequence
        let w := { w with gaze := some ⟨i, h.thread, live⟩ }
        (w.change i (·.advance h.thread h.sequence), .accepted move)
  | .restart => ({ w with gaze := none }, .accepted .restart)
  | .wait millis => (w, .accepted (.wait millis.toNat))

def view (w : World) : List RoomView :=
  (List.finRange roomCount).map fun i => w.rooms[i].view (roomName i)

def bodies (w : World) (i : Fin roomCount) : List String :=
  w.rooms[i].happenings.filterMap (·.body)

end World

end ReadTracking.Reference
