import ReadTracking.Bytes.BigEndian
import ReadTracking.Bytes.Utf8
import ReadTracking.Scope

/-!
# Slots as table keys

The key of a slot is the length of the room in four bytes, the room, the byte of the visibility,
and a byte that says whether a thread follows.  The length in front keeps the markers of a room
together and apart from those of a room whose name is longer.
-/

set_option autoImplicit false

namespace ReadTracking

def roomKey (room : RoomId) : List UInt8 :=
  bytesBigEndian 4 (utf8 room.text).length ++ utf8 room.text

def threadKey : Option EventId → List UInt8
  | none => [0]
  | some root => 1 :: utf8 root.text

def slotKey (s : Slot) : List UInt8 :=
  roomKey s.scope.room ++ s.visibility.tag :: threadKey s.scope.thread

end ReadTracking
