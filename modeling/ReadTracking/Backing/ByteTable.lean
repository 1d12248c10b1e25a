import ReadTracking.Backing
import ReadTracking.Bytes.SlotKey
import ReadTracking.Cbor.Marker

/-!
# Markers kept as bytes

A byte table holds every marker as bytes under the key of its slot.  Writes are transactions: a
batch is checked and written marker by marker, and one that would move a marker back undoes the
whole batch.  Bytes that are not a marker are passed over in listings, are replaced by a write,
and are an error only to those who ask for their slot.  Listings trust the stored marker and not
the key.
-/

set_option autoImplicit false

namespace ReadTracking

structure ByteTable where
  rows : Table (List UInt8) (List UInt8)
  deriving DecidableEq, Inhabited

namespace ByteTable

def empty : ByteTable := ⟨.empty⟩

def undecodable : StorageError := .serialization "stored bytes are not a marker"

def write (t : ByteTable) (e : Entry) : Except StorageError ByteTable :=
  let key := slotKey e.slot
  let written : ByteTable := ⟨t.rows.insert key (Cbor.writeMarker e)⟩
  match (t.rows.get? key).bind Cbor.readMarker with
  | some old =>
    if e.mark.sequence < old.mark.sequence then
      .error (.regression old.mark.sequence e.mark.sequence)
    else .ok written
  | none => .ok written

def writeAll : List Entry → ByteTable → Except StorageError ByteTable
  | [], t => .ok t
  | e :: es, t =>
    match t.write e with
    | .ok t => writeAll es t
    | .error why => .error why

def storeAll (es : List Entry) (t : ByteTable) : Called Unit ByteTable :=
  match writeAll es t with
  | .ok t => (.ok (), t)
  | .error why => (.error why, t)

def store (e : Entry) (t : ByteTable) : Called Unit ByteTable := storeAll [e] t

def load (slot : Slot) (t : ByteTable) : Called (Option Entry) ByteTable :=
  match t.rows.get? (slotKey slot) with
  | none => (.ok none, t)
  | some bytes =>
    match Cbor.readMarker bytes with
    | some e => (.ok (some e), t)
    | none => (.error undecodable, t)

def scan (t : ByteTable) (start : List UInt8) : List (List UInt8 × List UInt8) :=
  (t.rows.entries.dropWhile fun row => decide (KeyOrder.before row.1 start)).takeWhile
    fun row => start.isPrefixOf row.1

def decoded (rows : List (List UInt8 × List UInt8)) : List Entry :=
  rows.filterMap fun row => Cbor.readMarker row.2

def loadRoom (room : RoomId) (t : ByteTable) : Called (List Entry) ByteTable :=
  (.ok (decoded (t.scan (roomKey room))), t)

def entries (t : ByteTable) : List Entry := decoded t.rows.entries

def list (t : ByteTable) : Called (List Entry) ByteTable := (.ok t.entries, t)

def forget (room : RoomId) (t : ByteTable) : Called Nat ByteTable :=
  let keys := (t.scan (roomKey room)).map (·.1)
  (.ok keys.length, ⟨keys.foldl Table.erase t.rows⟩)

def putRows (t : ByteTable) (rows : List (List UInt8 × List UInt8)) : ByteTable :=
  ⟨t.rows.insertAll rows⟩

instance : Backing ByteTable := ⟨store, storeAll, load, loadRoom, list, forget⟩

end ByteTable

end ReadTracking
