import ReadTracking.Tracker.Command

/-!
# Auditing the read state

A snapshot holds what can be seen of a tracker and its storage at one moment.  Every check states
a relation that must hold in a snapshot and reports the first violation it meets.
-/

set_option autoImplicit false

namespace ReadTracking

structure Snapshot where
  rooms : List RoomState := []
  marks : Table Slot Nat := .empty
  persisted : Table Slot Nat := .empty
  unflushed : Table Slot Unit := .empty
  history : Table Scope (List Nat) := .empty
  roots : Table RoomId (List (EventId × Bool)) := .empty
  deriving DecidableEq, Inhabited

namespace Snapshot

variable {σ : Type}

def ofMemory (t : Tracker σ) (rooms : List RoomId) : Snapshot where
  rooms := rooms.map t.roomState
  marks := t.book.marks.mapValues fun _ m => m.sequence
  unflushed := t.book.unflushed.filter fun slot _ => t.book.marks.contains slot
  roots := .ofList (rooms.map fun room =>
    (room, (t.chronicle.threads room).map fun root => (root, t.chronicle.rootKnown room root)))

def take [Backing σ] (t : Tracker σ) (rooms : List RoomId) :
    Tracker σ × Except StorageError Snapshot :=
  let (answer, s) := Backing.list t.book.storage
  ({ t with book := { t.book with storage := s } },
    answer.map fun es => { ofMemory t rooms with
      persisted := .ofList (es.map fun e => (e.slot, e.mark.sequence)) })

def room? (s : Snapshot) (room : RoomId) : Option RoomState := s.rooms.find? (·.room == room)

def raise (t : Table Scope Nat) (scope : Scope) (sequence : Nat) : Table Scope Nat :=
  t.insert scope (match t.get? scope with
    | some q => max q sequence
    | none => sequence)

def effective (marks : Table Slot Nat) : Table Scope Nat :=
  marks.entries.foldl (fun t p => raise t p.1.scope p.2) .empty

end Snapshot

inductive Check where
  | roomUnread
  | totals
  | unknownRoots
  | monotone
  | persisted
  | impossible
  deriving DecidableEq, Repr, Inhabited

structure Violation where
  check : Check
  message : String
  deriving DecidableEq, Repr, Inhabited

namespace Check

def name : Check → String
  | .roomUnread => "room_unread_consistency"
  | .totals => "total_matches_breakdown"
  | .unknownRoots => "unknown_roots_are_read"
  | .monotone => "marker_monotonicity"
  | .persisted => "persisted_markers_match"
  | .impossible => "always_fails"

def standard : List Check := [.roomUnread, .totals, .unknownRoots, .monotone, .persisted]

def ofName? (n : String) : Option Check :=
  (standard ++ [Check.impossible]).find? fun c => c.name == n

def flag (b : Bool) : String := if b then "true" else "false"

def maybe : Option Nat → String
  | some n => "Some(" ++ toString n ++ ")"
  | none => "None"

/-! ## Rooms -/

def roomUnreadFault (r : RoomState) : Option String :=
  if r.isUnread != (decide (0 < r.mainUnread) || r.threads.any (·.hasUnread)) then
    some ("room " ++ r.room.text ++ ": is_room_unread=" ++ flag r.isUnread ++ " but main=" ++
      toString r.mainUnread ++ " unread_threads=" ++ toString r.unreadThreads.length)
  else
    (r.threads.find? fun t => t.hasUnread != decide (0 < t.unread)).map fun t =>
      "room " ++ r.room.text ++ " thread " ++ t.root.text ++ ": has_unread=" ++
        flag t.hasUnread ++ " with count " ++ toString t.unread

def totalsFault (r : RoomState) : Option String :=
  let unread := ThreadState.total (·.unread) r.threads
  let highlights := ThreadState.total (·.highlights) r.threads
  if r.unread ≠ r.mainUnread + unread then
    some ("room " ++ r.room.text ++ ": unread_count " ++ toString r.unread ++ " != main " ++
      toString r.mainUnread ++ " + threads " ++ toString unread)
  else if r.highlights ≠ r.mainHighlights + highlights then
    some ("room " ++ r.room.text ++ ": highlight_count " ++ toString r.highlights ++
      " != main " ++ toString r.mainHighlights ++ " + threads " ++ toString highlights)
  else if r.unread < r.highlights then
    some ("room " ++ r.room.text ++ ": " ++ toString r.highlights ++ " highlights exceed " ++
      toString r.unread ++ " unread")
  else none

def totalsFit (r : RoomState) : Bool :=
  let unread := ThreadState.total (·.unread) r.threads
  let highlights := ThreadState.total (·.highlights) r.threads
  -- A wrong unread count is a fault before the highlights are added.
  Sum64.fits (r.mainUnread + unread) && Sum64.fits highlights &&
    (r.unread != r.mainUnread + unread || Sum64.fits (r.mainHighlights + highlights))

def indexed? (s : Snapshot) (room : RoomId) (root : EventId) : Option Bool :=
  ((s.roots.get? room).bind fun roots => roots.find? fun p => p.1 == root).map (·.2)

def unknownRootsFault (s : Snapshot) (r : RoomState) : Option String :=
  match r.threads.find? fun t => !t.rootKnown && decide (0 < t.unread) with
  | some t =>
    some ("room " ++ r.room.text ++ " thread " ++ t.root.text ++ ": root unknown but " ++
      toString t.unread ++ " unread")
  | none =>
    (r.threads.find? fun t => match indexed? s r.room t.root with
      | some known => known != t.rootKnown
      | none => false).map fun t =>
        "room " ++ r.room.text ++ " thread " ++ t.root.text ++ ": root_known=" ++
          flag t.rootKnown ++ " disagrees with the index"

/-! ## Markers -/

def stepBack : List Nat → Option (Nat × Nat)
  | a :: b :: rest => if b < a then some (a, b) else stepBack (b :: rest)
  | _ => none

def monotoneFault (s : Snapshot) : Option String :=
  let back := s.history.entries.findSome? fun p => (stepBack p.2).map fun w =>
    "scope " ++ p.1.label ++ ": marker moved back " ++ toString w.1 ++ " -> " ++ toString w.2
  let effective := Snapshot.effective s.marks
  back.orElse fun _ => s.history.entries.findSome? fun p =>
    match p.2.getLast?, effective.get? p.1 with
    | some last, some current =>
      if current < last then
        some ("scope " ++ p.1.label ++ ": marker at " ++ toString current ++
          " after reaching " ++ toString last)
      else none
    | _, _ => none

def persistedFault (s : Snapshot) (slot : Slot) (sequence : Nat) : Option String :=
  let stored := s.persisted.get? slot
  let place := "scope " ++ slot.scope.label ++ " " ++ slot.visibility.word
  if stored.any fun q => decide (sequence < q) then
    some (place ++ ": storage at " ++ maybe stored ++ " ahead of memory " ++ toString sequence)
  else if !s.unflushed.contains slot && stored != some sequence then
    some (place ++ ": flushed marker " ++ toString sequence ++ " persisted as " ++ maybe stored)
  else none

def run (c : Check) (s : Snapshot) : Option String :=
  match c with
  | .roomUnread => s.rooms.findSome? roomUnreadFault
  | .totals => s.rooms.findSome? totalsFault
  | .unknownRoots => s.rooms.findSome? (unknownRootsFault s)
  | .monotone => monotoneFault s
  | .persisted => s.marks.entries.findSome? fun p => persistedFault s p.1 p.2
  | .impossible => some "failed"

def fits (c : Check) (s : Snapshot) : Bool :=
  match c with
  | .totals =>
    ((s.rooms.find? fun r => !totalsFit r || (totalsFault r).isSome).map totalsFit).getD true
  | _ => true

def runAll (cs : List Check) (s : Snapshot) : List Violation :=
  cs.filterMap fun c => (c.run s).map (⟨c, ·⟩)

def runAll? (cs : List Check) (s : Snapshot) : Option (List Violation) :=
  if cs.all (·.fits s) then some (runAll cs s) else none

end Check

namespace Violation

def text (v : Violation) : String := v.check.name ++ ": " ++ v.message

def report (context : String) (vs : List Violation) : String :=
  "Invariant violation " ++ context ++ ":\n  " ++ "\n  ".intercalate (vs.map text)

end Violation

end ReadTracking
