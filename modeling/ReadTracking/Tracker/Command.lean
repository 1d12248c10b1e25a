import ReadTracking.Tracker.Turn

/-!
# The operations of the tracker

Viewing a room reads its main timeline.  Viewing a thread reads the thread, and the main
timeline up to the root and no further.  Marking a room as read reads all of its scopes.  A jump
reads the scope of its message up to the message; if the message is not loaded yet, the jump
asks for the messages around it and is completed by the answer, unless the user went elsewhere
in between.  Every operation answers with the actions it asks for or with a refusal.
-/

set_option autoImplicit false

namespace ReadTracking

inductive Command where
  | markRoomRead (room : RoomId)
  | viewRoom (room : RoomId)
  | viewThread (room : RoomId) (root : EventId)
  | closeThread
  | leave
  | jump (room : RoomId) (event : EventId) (includeThreads : Bool)
  | supply (request : Nat) (messages : List Message)
  | receive (room : RoomId) (messages : List Message) (limited : Bool)
  | backfill (room : RoomId) (messages : List Message) (filled : Option Nat)
  | receipt (room : RoomId) (user : UserId) (event : EventId) (visibility : Visibility)
      (reach : Reach)
  | sendFailed (scope : Scope) (event : EventId) (reason : String)
  | forget (room : RoomId)
  | tick (now : Nat)
  deriving DecidableEq, Repr, Inhabited

structure Answer (σ : Type) where
  tracker : Tracker σ
  notices : List Notice
  reply : Except Refusal (List Action)
  dated : Bool

def Turn.done {σ : Type} (r : Turn σ) : Answer σ :=
  ⟨r.tracker, r.notices, .ok r.actions, r.dated⟩

def Turn.refused {σ : Type} (r : Turn σ) (why : Refusal) : Answer σ :=
  ⟨r.tracker, r.notices, .error why, r.dated⟩

namespace Tracker

variable {σ : Type} [Backing σ]

def unreadEnds (t : Tracker σ) (room : RoomId) : List Update :=
  ((t.chronicle.scopes room).filterMap (Turn.horizon t.chronicle)).filter fun u =>
    !t.book.covers u.scope u.sequence

def markRoomRead (t : Tracker σ) (room : RoomId) : Answer σ :=
  let r : Turn σ := { tracker := t }
  (((r.readAll (t.unreadEnds room)).report room).release).done

def viewRoom (t : Tracker σ) (room : RoomId) : Answer σ :=
  let r : Turn σ := { tracker := { t with awaited := none, focus := some ⟨room, none, true⟩ } }
  (((r.readToEnd (.ofRoom room)).report room).release).done

def viewThread (t : Tracker σ) (room : RoomId) (root : EventId) : Answer σ :=
  let known := t.chronicle.rootKnown room root
  if known || t.chronicle.hasThread room root then
    let r : Turn σ :=
      { tracker := { t with awaited := none, focus := some ⟨room, some root, true⟩ } }
    let r := r.readToEnd (.ofThread room root)
    let r := match known, t.chronicle.position? root with
      | true, some p => r.read ⟨.ofRoom room, root, p.sequence⟩
      | _, _ => r
    ((r.report room).release).done
  else ({ tracker := t } : Turn σ).refused (.unknownThread room root)

def closeThread (t : Tracker σ) : Answer σ :=
  let r : Turn σ :=
    { tracker := { t with focus := t.focus.map fun f => { f with thread := none } } }
  r.release.done

def leave (t : Tracker σ) : Answer σ :=
  let r : Turn σ := { tracker := { t with awaited := none, focus := none } }
  r.release.done

def jump (t : Tracker σ) (room : RoomId) (event : EventId) (includeThreads : Bool) : Answer σ :=
  match Turn.barrier t.chronicle event includeThreads with
  | some root => ({ tracker := t } : Turn σ).refused (.inThread event root)
  | none =>
    let r : Turn σ := { tracker := { t with awaited := none } }
    match t.chronicle.get? event with
    | some e => (((r.land room e).report room).release).done
    | none =>
      let (ambient, request) := t.ambient.number
      let r := r.update fun t => { t with
        ambient
        awaited := some ⟨request, room, event, includeThreads⟩
        focus := some ⟨room, none, false⟩ }
      ((r.ask (.fetch request room event)).release).done

def supply (t : Tracker σ) (request : Nat) (messages : List Message) : Answer σ :=
  match t.awaited with
  | none => ({ tracker := t } : Turn σ).done
  | some a =>
    if a.request = request then
      let (chronicle, placed) := t.chronicle.ingest a.room messages false
      let r : Turn σ := { tracker := { t with chronicle, awaited := none } }
      let r := r.afterPlacing placed
      match Turn.barrier chronicle a.event a.includeThreads with
      | some root => ((r.report a.room).release).refused (.inThread a.event root)
      | none =>
        let r := match chronicle.get? a.event with
          | some e => r.land a.room e
          | none => r
        ((r.report a.room).release).done
    else ({ tracker := t } : Turn σ).done

def receive (t : Tracker σ) (room : RoomId) (messages : List Message) (limited : Bool) :
    Answer σ :=
  let (chronicle, placed) := t.chronicle.ingest room messages limited
  let r : Turn σ := { tracker := { t with chronicle } }
  let r := (r.afterPlacing placed).followLive room placed limited
  ((r.report room).release).done

def backfill (t : Tracker σ) (room : RoomId) (messages : List Message) (filled : Option Nat) :
    Answer σ :=
  let (chronicle, placed) := t.chronicle.ingest room messages false
  let chronicle := match filled with
    | some gap => (chronicle.closeGap room gap).1
    | none => chronicle
  let r : Turn σ := { tracker := { t with chronicle } }
  (((r.afterPlacing placed).report room).release).done

def receipt (t : Tracker σ) (room : RoomId) (user : UserId) (event : EventId) (v : Visibility)
    (reach : Reach) : Answer σ :=
  let r : Turn σ := { tracker := t }
  if user = t.reader then
    match t.chronicle.get? event with
    | some e =>
      ((r.applyReceipt ⟨e.scope, event, e.position.sequence⟩ v reach).report
        e.scope.room).release.done
    | none => (r.hold room event v reach).release.done
  else r.done

def sendFailed (t : Tracker σ) (_scope : Scope) (_event : EventId) (_reason : String) :
    Answer σ :=
  ({ tracker := t } : Turn σ).done

def forget (t : Tracker σ) (room : RoomId) : Answer σ :=
  let chronicle := (t.chronicle.forget room).1
  match t.book.forget room with
  -- A failing storage stops the forgetting halfway.
  | (book, .error why) =>
    ({ tracker := { t with chronicle, book } } : Turn σ).refused (.storage why)
  | (book, .ok _) =>
    ({ tracker := { t with
        chronicle
        book
        sends := t.sends.forget room
        reported := t.reported.erase room
        held := t.held.filter fun _ h => h.room != room
        focus := t.focus.filter fun f => f.room != room
        awaited := t.awaited.filter fun a => a.room != room } } : Turn σ).done

def tick (t : Tracker σ) (now : Nat) : Answer σ :=
  let r := ({ tracker := t } : Turn σ).releaseAt now
  (r.update fun t =>
    if t.book.unflushed.isEmpty then t else { t with book := t.book.flush.1 }).done

def handle (t : Tracker σ) : Command → Answer σ
  | .markRoomRead room => t.markRoomRead room
  | .viewRoom room => t.viewRoom room
  | .viewThread room root => t.viewThread room root
  | .closeThread => t.closeThread
  | .leave => t.leave
  | .jump room event includeThreads => t.jump room event includeThreads
  | .supply request messages => t.supply request messages
  | .receive room messages limited => t.receive room messages limited
  | .backfill room messages filled => t.backfill room messages filled
  | .receipt room user event v reach => t.receipt room user event v reach
  | .sendFailed scope event reason => t.sendFailed scope event reason
  | .forget room => t.forget room
  | .tick now => t.tick now

end Tracker

end ReadTracking
