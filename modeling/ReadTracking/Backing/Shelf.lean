import ReadTracking.Backing

/-!
# Markers kept in memory

A shelf is a table from slots to markers.  A batch is checked as a whole against the markers
that were there before it, and then written in order.
-/

set_option autoImplicit false

namespace ReadTracking

structure Shelf where
  marks : Table Slot Mark
  deriving DecidableEq, Inhabited

namespace Shelf

def empty : Shelf := ⟨.empty⟩

def entries (s : Shelf) : List Entry := s.marks.entries.map fun p => ⟨p.1, p.2⟩

def regression? (s : Shelf) (e : Entry) : Option StorageError :=
  match s.marks.get? e.slot with
  | none => none
  | some m =>
    if e.mark.sequence < m.sequence then some (.regression m.sequence e.mark.sequence) else none

def put (s : Shelf) (e : Entry) : Shelf := ⟨s.marks.insert e.slot e.mark⟩

def store (e : Entry) (s : Shelf) : Called Unit Shelf :=
  match s.regression? e with
  | some why => (.error why, s)
  | none => (.ok (), s.put e)

def storeAll (es : List Entry) (s : Shelf) : Called Unit Shelf :=
  match es.findSome? s.regression? with
  | some why => (.error why, s)
  | none => (.ok (), es.foldl put s)

def load (slot : Slot) (s : Shelf) : Called (Option Entry) Shelf :=
  (.ok ((s.marks.get? slot).map (⟨slot, ·⟩)), s)

def loadRoom (room : RoomId) (s : Shelf) : Called (List Entry) Shelf :=
  (.ok (s.entries.filter (·.room == room)), s)

def list (s : Shelf) : Called (List Entry) Shelf := (.ok s.entries, s)

def forget (room : RoomId) (s : Shelf) : Called Nat Shelf :=
  let kept := s.marks.filter fun slot _ => slot.scope.room != room
  (.ok (s.marks.size - kept.size), ⟨kept⟩)

instance : Backing Shelf := ⟨store, storeAll, load, loadRoom, list, forget⟩

end Shelf

end ReadTracking
