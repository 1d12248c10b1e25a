import ReadTracking.Session.Move
import ReadTracking.Session.State

/-!
# Playing moves

What every move does to a session.  Only a jump, a late answer to a request, and a restart can
be refused; that is an answer and not a halt.
-/

set_option autoImplicit false

namespace ReadTracking.Session

variable {σ : Type} [Backing σ]

/-! ## Rooms and messages -/

def createRoom (s : Session σ) (name : String) : Except Halt (Session σ × RoomId) := do
  let (server, room) := s.server.createRoom name
  let s := { s with server, rooms := s.rooms.insert name room }
  -- Joining is a message of the local user that nobody counts.
  let (s, events) ← s.post room me [.state false]
  let s ← s.deliver room events false
  let s ← s.observe "create_room"
  return (s, room)

def createRooms : List String → Session σ → Except Halt (Session σ)
  | [], s => .ok s
  | name :: names, s => do
    let (s, _) ← s.createRoom name
    createRooms names s

def botSends (s : Session σ) (name : String) (drafts : List Draft) :
    Except Halt (Session σ) := do
  let room ← s.roomOf name
  let (s, events) ← s.post room bot drafts
  let s ← s.deliver room events false
  s.observe "receive_messages"

def botMentions (s : Session σ) (name : String) (drafts : List Draft) :
    Except Halt (Session σ) := do
  let room ← s.roomOf name
  let (s, events) ← s.post room bot drafts
  let s ← s.deliver room (events.map fun m => { m with highlight := true }) false
  s.observe "receive_mentions"

def botSendsUnseen (s : Session σ) (name : String) (drafts : List Draft) :
    Except Halt (Session σ) := do
  let room ← s.roomOf name
  let (s, _) ← s.post room bot drafts
  return s

def botSendsAfterGap (s : Session σ) (name : String) (drafts : List Draft) :
    Except Halt (Session σ) := do
  let room ← s.roomOf name
  let (s, events) ← s.post room bot drafts
  let s ← s.deliver room events true
  s.observe "receive_messages_after_gap"

def userSends (s : Session σ) (name : String) (drafts : List Draft) :
    Except Halt (Session σ) := do
  let room ← s.roomOf name
  let (s, events) ← s.post room me drafts
  let s ← s.deliver room events false
  s.observe "send_own"

def closeGaps (room : RoomId) :
    List Nat → Session σ → Session σ × Except Refusal (List Action)
  | [], s => (s, .ok [])
  | gap :: gaps, s =>
    match s.after (s.tracker.backfill room [] (some gap)) with
    | (s, .ok actions) =>
      let (s, rest) := closeGaps room gaps s
      (s, rest.map (actions ++ ·))
    | (s, .error why) => (s, .error why)

def catchUp (s : Session σ) (name : String) : Except Halt (Session σ) := do
  let room ← s.roomOf name
  let missing := (s.server.timeline room).filter fun m => !s.delivered.contains m.id
  let gaps := (s.gaps.get? room).getD []
  let s := { s with
    delivered := s.delivered.insertAll (missing.map fun m : Message => (m.id, ()))
    gaps := s.gaps.erase room }
  match s.after (s.tracker.backfill room missing gaps.head?) with
  | (_, .error why) => .error (.moveRefused "backfill" why)
  | (s, .ok actions) =>
    match closeGaps room gaps.tail s with
    | (_, .error why) => .error (.moveRefused "backfill" why)
    | (s, .ok more) => s.settle (actions ++ more) "backfill"

/-! ## Navigation -/

def enter (s : Session σ) (name : String) : Except Halt (Session σ) := do
  let room ← s.roomOf name
  let s := { s with current := some room }
  s.settleAnswer (s.tracker.viewRoom room) "go_to"

def leave (s : Session σ) : Except Halt (Session σ) :=
  let s := { s with current := none }
  s.settleAnswer s.tracker.leave "go_home"

def openThread (s : Session σ) (body : String) : Except Halt (Session σ) := do
  let room ← match s.current with
    | some room => .ok room
    | none => .error .noOpenRoom
  let root ← s.find room body
  match s.after (s.tracker.viewThread room root) with
  | (s, .ok actions) => s.settle actions "open_thread"
  | (_, .error why) => .error (.threadRefused body why)

def closeThread (s : Session σ) : Except Halt (Session σ) :=
  s.settleAnswer s.tracker.closeThread "close_thread"

def markRead (s : Session σ) (name : String) : Except Halt (Session σ) := do
  let room ← s.roomOf name
  s.settleAnswer (s.tracker.markRoomRead room) "mark_as_read"

def jump (s : Session σ) (name body : String) (includeThreads : Bool) :
    Except Halt (Session σ × Except Refusal Unit) := do
  let room ← s.roomOf name
  let event ← s.eventOf name body
  -- A refused jump is an answer and not a halt.
  match s.after (s.tracker.jump room event includeThreads) with
  | (s, .error why) => return (s, .error why)
  | (s, .ok actions) =>
    let (s, result) := ({ s with current := some room } : Session σ).execute actions
    let s ← s.observe "jump_to"
    return (s, result)

def answerHeld (s : Session σ) : Except Halt (Session σ × Except Refusal Unit) :=
  match s.waiting with
  | none => .ok (s, .ok ())
  | some f => do
    let (s, result) := answer f { s with waiting := none }
    let s ← s.observe "answer_held_context"
    return (s, result)

/-! ## Receipts -/

def readElsewhereName : Reach → String
  | .scope => "other_session_reads"
  | .room => "other_session_reads_unthreaded"

def readElsewhere (s : Session σ) (name body : String) (reach : Reach) :
    Except Halt (Session σ) := do
  let room ← s.roomOf name
  let event ← s.eventOf name body
  let scope := s.server.scopeOf room event
  match s.server.takeReceipt me ⟨scope, .shared⟩ event with
  | (_, .error why) => .error (.server why)
  | (server, .ok ()) =>
    let s := { s with server }
    s.settleAnswer (s.tracker.receipt room me event .shared reach) (readElsewhereName reach)

def memberReads (s : Session σ) (name body : String) : Except Halt (Session σ) := do
  let room ← s.roomOf name
  let event ← s.eventOf name body
  s.settleAnswer (s.tracker.receipt room alice event .shared .scope) "other_user_reads"

/-! ## Lifecycle -/

def deliverTimelines : List RoomId → Session σ → Except Halt (Session σ)
  | [], s => .ok s
  | room :: rooms, s => do
    let s ← s.deliver room (s.server.timeline room) false
    deliverTimelines rooms s

def deliverReceipts : List (ReceiptKey × KeptReceipt) → Session σ →
    Session σ × Except Refusal Unit
  | [], s => (s, .ok ())
  | (key, kept) :: rest, s =>
    match s.after (s.tracker.receipt key.slot.scope.room me kept.event key.slot.visibility
        .scope) with
    | (s, .error why) => (s, .error why)
    | (s, .ok actions) =>
      match s.execute actions with
      | (s, .error why) => (s, .error why)
      | (s, .ok ()) => deliverReceipts rest s

def restart (s : Session σ) : Except Halt (Session σ × Except Refusal Unit) :=
  let old := s.tracker
  match Tracker.openOver old.ambient old.policy me old.book.storage with
  | (.error why, storage) =>
    .ok ({ s with tracker := { old with book := { old.book with storage } } }, .error why)
  | (.ok tracker, _) => do
    let s := { s with
      tracker, current := none, delivered := .empty, gaps := .empty, waiting := none }
    let s ← deliverTimelines s.joined s
    match deliverReceipts (s.server.receiptsOf me) s with
    | (s, .error why) => return (s, .error why)
    | (s, .ok ()) =>
      let s ← s.observe "save_and_reload"
      return (s, .ok ())

def forgetRoom (s : Session σ) (name : String) : Except Halt (Session σ) := do
  let room ← s.roomOf name
  match s.after (s.tracker.forget room) with
  | (_, .error why) => .error (.forgetRefused why)
  | (s, .ok actions) =>
    let s := { s with
      history := s.history.filter fun scope _ => scope.room != room
      rooms := s.rooms.erase name
      current := s.current.filter (· != room) }
    s.settle actions "forget_room"

def wait (s : Session σ) (millis : Nat) : Except Halt (Session σ) :=
  let ambient := s.tracker.ambient.wait (millis * Ambient.nanosPerMilli)
  let s := { s with tracker := { s.tracker with ambient } }
  s.settleAnswer (s.tracker.tick ambient.elapsed) "tick"

/-! ## Moves as values -/

def always (played : Except Halt (Session σ)) : Except Halt (Session σ × Except Refusal Unit) :=
  played.map (·, .ok ())

def play (s : Session σ) : Move → Except Halt (Session σ × Except Refusal Unit)
  | .createRoom name => always ((s.createRoom name).map (·.1))
  | .enter name => always (s.enter name)
  | .leave => always s.leave
  | .openThread body => always (s.openThread body)
  | .closeThread => always s.closeThread
  | .markRead name => always (s.markRead name)
  | .jump name body includeThreads => s.jump name body includeThreads
  | .hold on => always (.ok { s with holding := on })
  | .answerHeld => s.answerHeld
  | .botSends name drafts => always (s.botSends name drafts)
  | .botMentions name drafts => always (s.botMentions name drafts)
  | .botSendsUnseen name drafts => always (s.botSendsUnseen name drafts)
  | .botSendsAfterGap name drafts => always (s.botSendsAfterGap name drafts)
  | .userSends name drafts => always (s.userSends name drafts)
  | .catchUp name => always (s.catchUp name)
  | .readElsewhere name body reach => always (s.readElsewhere name body reach)
  | .memberReads name body => always (s.memberReads name body)
  | .refuseReceipts on => always (.ok { s with server := { s.server with rejecting := on } })
  | .restart => s.restart
  | .forgetRoom name => always (s.forgetRoom name)
  | .wait millis => always (s.wait millis)

end ReadTracking.Session
