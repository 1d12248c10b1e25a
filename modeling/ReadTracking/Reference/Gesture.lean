import ReadTracking.KeyOrder

/-!
# Gestures

A gesture is one thing that somebody does: the bot sends something, the local user does
something, or time passes.  It names rooms, threads and messages by small numbers, which pick
among what is there when the gesture is made.  So every list of bytes can be read as a list of
gestures.
-/

set_option autoImplicit false

namespace ReadTracking.Reference

inductive Gesture where
  | botMessage (room : UInt8)
  | botThreadReply (room root : UInt8)
  | botReaction (room target : UInt8)
  | botEdit (room target : UInt8)
  | ownMessage (room : UInt8)
  | enter (room : UInt8)
  | openThread (root : UInt8)
  | closeThread
  | leave
  | markRead (room : UInt8)
  | readElsewhere (room target : UInt8)
  | memberReads (room target : UInt8)
  | jump (room target : UInt8) (includeThreads : Bool)
  | restart
  | wait (millis : UInt16)
  deriving DecidableEq, Repr, Inhabited

namespace Gesture

def parts : Gesture → String × List (String × String)
  | .botMessage room => ("BotMessage", [("room", toString room.toNat)])
  | .botThreadReply room root =>
    ("BotThreadReply", [("room", toString room.toNat), ("root", toString root.toNat)])
  | .botReaction room target =>
    ("BotReaction", [("room", toString room.toNat), ("target", toString target.toNat)])
  | .botEdit room target =>
    ("BotEdit", [("room", toString room.toNat), ("target", toString target.toNat)])
  | .ownMessage room => ("OwnMessage", [("room", toString room.toNat)])
  | .enter room => ("GoTo", [("room", toString room.toNat)])
  | .openThread root => ("OpenThread", [("root", toString root.toNat)])
  | .closeThread => ("CloseThread", [])
  | .leave => ("GoHome", [])
  | .markRead room => ("MarkAsRead", [("room", toString room.toNat)])
  | .readElsewhere room target =>
    ("OtherSessionReads", [("room", toString room.toNat), ("target", toString target.toNat)])
  | .memberReads room target =>
    ("OtherUserReads", [("room", toString room.toNat), ("target", toString target.toNat)])
  | .jump room target includeThreads =>
    ("JumpTo", [("room", toString room.toNat), ("target", toString target.toNat),
      ("include_threads", if includeThreads then "true" else "false")])
  | .restart => ("SaveAndReload", [])
  | .wait millis => ("AdvanceTime", [("millis", toString millis.toNat)])

def text (g : Gesture) : String :=
  match g.parts with
  | (name, []) => name
  | (name, fields) =>
    name ++ " \x7b " ++ ", ".intercalate (fields.map fun f => f.1 ++ ": " ++ f.2) ++ " \x7d"

def ofParts? (name : String) (arg : String → Nat) : Option Gesture :=
  let byte := fun k => UInt8.ofNat (arg k)
  let room := byte "room"
  let root := byte "root"
  let target := byte "target"
  match name with
  | "BotMessage" => some (.botMessage room)
  | "BotThreadReply" => some (.botThreadReply room root)
  | "BotReaction" => some (.botReaction room target)
  | "BotEdit" => some (.botEdit room target)
  | "OwnMessage" => some (.ownMessage room)
  | "GoTo" => some (.enter room)
  | "OpenThread" => some (.openThread root)
  | "CloseThread" => some .closeThread
  | "GoHome" => some .leave
  | "MarkAsRead" => some (.markRead room)
  | "OtherSessionReads" => some (.readElsewhere room target)
  | "OtherUserReads" => some (.memberReads room target)
  | "JumpTo" => some (.jump room target (arg "include_threads" != 0))
  | "SaveAndReload" => some .restart
  | "AdvanceTime" => some (.wait (UInt16.ofNat (arg "millis")))
  | _ => none

/-! ## Reading bytes -/

def byteAt (bytes : List UInt8) (i : Nat) : UInt8 := bytes.getD i 0

def numberAt (bytes : List UInt8) (i : Nat) : (width : Nat) → Nat
  | 0 => 0
  | width + 1 => (byteAt bytes i).toNat + 256 * numberAt bytes (i + 1) width

def ofIndex (index : Nat) (args : List UInt8) : Gesture × Nat :=
  let a := byteAt args 0
  let b := byteAt args 1
  match index with
  | 0 => (.botMessage a, 1)
  | 1 => (.botThreadReply a b, 2)
  | 2 => (.botReaction a b, 2)
  | 3 => (.botEdit a b, 2)
  | 4 => (.ownMessage a, 1)
  | 5 => (.enter a, 1)
  | 6 => (.openThread a, 1)
  | 7 => (.closeThread, 0)
  | 8 => (.leave, 0)
  | 9 => (.markRead a, 1)
  | 10 => (.readElsewhere a b, 2)
  | 11 => (.memberReads a b, 2)
  | 12 => (.jump a b ((byteAt args 2).toNat % 2 == 1), 3)
  | 13 => (.restart, 0)
  | _ => (.wait (UInt16.ofNat (numberAt args 0 2)), 2)

def kinds : Nat := 15

/-- Read one gesture: four bytes spread evenly over the kinds, then its arguments.  The second
part says how many bytes it takes. -/
def ofBytes (bytes : List UInt8) : Gesture × Nat :=
  let (g, width) := ofIndex ((numberAt bytes 0 4 * kinds) >>> 32) (bytes.drop 4)
  (g, width + 4)

def allOfBytes (bytes : List UInt8) : List Gesture :=
  if _h : bytes = [] then []
  else (ofBytes bytes).1 :: allOfBytes (bytes.drop (ofBytes bytes).2)
termination_by bytes.length
decreasing_by
  have := List.length_pos_iff.2 _h
  simp only [List.length_drop, ofBytes]
  omega

end Gesture

end ReadTracking.Reference
