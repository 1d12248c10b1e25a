import ReadTracking.Message
import ReadTracking.Sum64
import ReadTracking.Text.Quoted

/-!
# A server to play against

The server numbers events through all rooms, keeps the whole timeline of every room, finds
events by the text that a user sees, and keeps the furthest receipt of every user and slot.
-/

set_option autoImplicit false

namespace ReadTracking

inductive Draft where
  | plain (body : String)
  | threadReply (root body : String)
  | reply (target body : String)
  | edit (target body : String)
  | reaction (target key : String)
  | state (notify : Bool)
  deriving DecidableEq, Repr, Inhabited

namespace Draft

def body? : Draft → Option String
  | .plain body | .threadReply _ body | .reply _ body | .edit _ body => some body
  | .reaction _ _ | .state _ => none

def many (stem : String) (count : Nat) : List Draft :=
  (List.range count).map fun i => .plain (stem ++ toString (i + 1))

end Draft

inductive ServerFault where
  | unknownRoom (room : RoomId)
  | unknownBody (room : RoomId) (body : String)
  | receiptRejected
  deriving DecidableEq, Repr, Inhabited

def ServerFault.message : ServerFault → String
  | .unknownRoom room => "unknown room " ++ room.text
  | .unknownBody room body =>
    "no event with body " ++ Text.quoted body ++ " in " ++ room.text
  | .receiptRejected => "receipt rejected"

structure ReceiptKey where
  user : UserId
  slot : Slot
  deriving DecidableEq, Repr, Inhabited

instance : KeyOrder ReceiptKey := .onInjective (fun k => (k.user, k.slot)) fun {a b} h => by
  cases a; cases b; simpa using h

structure KeptReceipt where
  event : EventId
  sequence : Nat
  deriving DecidableEq, Repr, Inhabited

structure Server where
  timelines : Table RoomId (List Message) := .empty
  bodies : Table (RoomId × String) EventId := .empty
  receipts : Table ReceiptKey KeptReceipt := .empty
  nextSequence : Nat := 1
  rejecting : Bool := false
  accepted : Nat := 0
  deriving DecidableEq, Inhabited

namespace Server

def roomNamed (name : String) : RoomId := ⟨"!" ++ name ++ ":sim"⟩

def eventNumbered (sequence : Nat) : EventId := ⟨"$" ++ toString sequence⟩

def createRoom (s : Server) (name : String) : Server × RoomId :=
  let room := roomNamed name
  if s.timelines.contains room then (s, room)
  else ({ s with timelines := s.timelines.insert room [] }, room)

def timeline (s : Server) (room : RoomId) : List Message := (s.timelines.get? room).getD []

def resolve (s : Server) (room : RoomId) (body : String) : Except ServerFault EventId :=
  match s.bodies.get? (room, body) with
  | some id => .ok id
  | none => .error (.unknownBody room body)

def contentOf (s : Server) (room : RoomId) : Draft → Except ServerFault Content
  | .plain _ => .ok .plain
  | .threadReply root _ => (s.resolve room root).map .threadReply
  | .reply target _ => (s.resolve room target).map .reply
  | .edit target _ => (s.resolve room target).map .edit
  | .reaction target key => (s.resolve room target).map (.reaction · key)
  | .state notify => .ok (.state notify)

def post (s : Server) (m : Message) (body : Option String) : Server :=
  { s with
    timelines := s.timelines.insert m.room (s.timeline m.room ++ [m])
    bodies := match body with
      | some b => s.bodies.insert (m.room, b) m.id
      | none => s.bodies }

def sendAll (room : RoomId) (sender : UserId) :
    List Draft → Server → Server × Except ServerFault (List Message)
  | [], s => (s, .ok [])
  | d :: ds, s =>
    let sequence := s.nextSequence
    -- The number is used up even if the draft names a text nobody sent.
    let s := { s with nextSequence := sequence + 1 }
    match s.contentOf room d with
    | .error why => (s, .error why)
    | .ok content =>
      let m : Message := ⟨eventNumbered sequence, room, sender, sequence, content, false⟩
      let (s, rest) := sendAll room sender ds (s.post m d.body?)
      (s, rest.map (m :: ·))

def send (s : Server) (room : RoomId) (sender : UserId) (drafts : List Draft) :
    Server × Except ServerFault (List Message) :=
  if s.timelines.contains room then sendAll room sender drafts s
  else (s, .error (.unknownRoom room))

def chase (timeline : List Message) (room : RoomId) : (steps : Nat) → EventId → Scope
  | 0, _ => .ofRoom room
  | steps + 1, id =>
    match timeline.find? (·.id == id) with
    | none => .ofRoom room
    | some m =>
      match m.content with
      | .threadReply root => .ofThread room root
      | .edit target | .reaction target _ => chase timeline room steps target
      | _ => .ofRoom room

def scopeOf (s : Server) (room : RoomId) (id : EventId) : Scope :=
  let timeline := s.timeline room
  chase timeline room timeline.length id

def around (s : Server) (room : RoomId) (id : EventId) (radius : Nat) : List Message :=
  let timeline := s.timeline room
  match timeline.findIdx? (·.id == id) with
  | none => []
  | some i => (timeline.take (i + radius + 1)).drop (i - radius)

def around? (s : Server) (room : RoomId) (id : EventId) (radius : Nat) :
    Option (List Message) :=
  if ((s.timeline room).findIdx? (·.id == id)).all fun i => Sum64.fits (i + radius + 1) then
    some (s.around room id radius)
  else none

def takeReceipt (s : Server) (user : UserId) (slot : Slot) (event : EventId) :
    Server × Except ServerFault Unit :=
  if s.rejecting then (s, .error .receiptRejected)
  else
    match (s.timeline slot.scope.room).find? (·.id == event) with
    | none => (s, .error (.unknownBody slot.scope.room event.text))
    | some m =>
      let s := { s with accepted := s.accepted + 1 }
      let key : ReceiptKey := ⟨user, slot⟩
      let newer := match s.receipts.get? key with
        | some kept => decide (kept.sequence < m.sequence)
        | none => true
      if newer then
        ({ s with receipts := s.receipts.insert key ⟨event, m.sequence⟩ }, .ok ())
      else (s, .ok ())

def receipt? (s : Server) (user : UserId) (slot : Slot) : Option KeptReceipt :=
  s.receipts.get? ⟨user, slot⟩

def listedBefore (a b : ReceiptKey × KeptReceipt) : Bool :=
  !decide (KeyOrder.before (b.2.sequence, b.1.slot.visibility)
    (a.2.sequence, a.1.slot.visibility))

def receiptsOf (s : Server) (user : UserId) : List (ReceiptKey × KeptReceipt) :=
  (s.receipts.entries.filter fun p => p.1.user == user).mergeSort listedBefore

end Server

end ReadTracking
