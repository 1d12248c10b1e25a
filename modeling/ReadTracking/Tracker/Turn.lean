import ReadTracking.Tracker.State

/-!
# Turns

One operation of the tracker is a turn: it changes the tracker, asks for actions and delivers
notices.  This module holds the steps of which the operations are made.  Reading on this device
moves the personal marker and queues a receipt; receipts of other sessions move the marker of
their own visibility and queue nothing.
-/

set_option autoImplicit false

namespace ReadTracking

structure Turn (σ : Type) where
  tracker : Tracker σ
  actions : List Action := []
  notices : List Notice := []
  dated : Bool := false
  deriving DecidableEq, Inhabited

namespace Turn

variable {σ : Type}

def ask (r : Turn σ) (a : Action) : Turn σ := { r with actions := r.actions ++ [a] }

def update (r : Turn σ) (f : Tracker σ → Tracker σ) : Turn σ :=
  { r with tracker := f r.tracker }

/-! ## Reading on this device -/

def queueSend (r : Turn σ) (u : Update) : Turn σ :=
  r.update fun t => { t with
    sends := t.sends.queue ⟨u.scope, t.sendVisibility⟩ u.event u.sequence t.ambient.elapsed }

def read [Backing σ] (r : Turn σ) (u : Update) : Turn σ :=
  let t := r.tracker
  if t.book.covers u.scope u.sequence then r
  else
    let (book, advance) := t.book.advance u .personal t.ambient.wallClock
    let r := { r with tracker := { t with book }, dated := true }
    match advance with
    | .ignored => r
    | .applied => r.queueSend u
    | .unsaved why => (r.ask (.unsaved u.scope .personal why)).queueSend u

def readAll [Backing σ] (r : Turn σ) (us : List Update) : Turn σ :=
  let t := r.tracker
  let (book, moved, advance) := t.book.advanceAll us .personal t.ambient.wallClock
  let r := { r with tracker := { t with book }, dated := true }
  moved.foldl (fun r u =>
    match advance with
    | .unsaved why => (r.ask (.unsaved u.scope .personal why)).queueSend u
    | _ => r.queueSend u) r

def horizon (c : Chronicle) (s : Scope) : Option Update :=
  (c.latest s).map fun head =>
    { scope := s
      event := head.message.id
      -- A gap behind the last message is read with it.
      sequence := match c.lastGap s with
        | some gap => max gap head.position.sequence
        | none => head.position.sequence }

def readToEnd [Backing σ] (r : Turn σ) (s : Scope) : Turn σ :=
  match horizon r.tracker.chronicle s with
  | some u => r.read u
  | none => r

/-! ## Receipts of other sessions -/

def readElsewhere [Backing σ] (r : Turn σ) (u : Update) (v : Visibility) : Turn σ :=
  let t := r.tracker
  let (book, advance) := t.book.advance u v t.ambient.wallClock
  let r := { r with tracker := { t with book }, dated := true }
  match advance with
  | .unsaved why => r.ask (.unsaved u.scope v why)
  | _ => r

def floors (c : Chronicle) (room : RoomId) (sequence : Nat) : List Update :=
  (c.scopes room).filterMap fun s =>
    (c.floor s sequence).map fun e => ⟨s, e.message.id, e.position.sequence⟩

def readRoomElsewhere [Backing σ] (r : Turn σ) (room : RoomId) (sequence : Nat)
    (v : Visibility) : Turn σ :=
  let t := r.tracker
  let (book, moved, advance) :=
    t.book.advanceAll (floors t.chronicle room sequence) v t.ambient.wallClock
  let r := { r with tracker := { t with book }, dated := true }
  match advance with
  | .unsaved why => moved.foldl (fun r u => r.ask (.unsaved u.scope v why)) r
  | _ => r

def applyReceipt [Backing σ] (r : Turn σ) (u : Update) (v : Visibility) (reach : Reach) :
    Turn σ :=
  match reach with
  | .scope => r.readElsewhere u v
  | .room => r.readRoomElsewhere u.scope.room u.sequence v

def hold (r : Turn σ) (room : RoomId) (event : EventId) (v : Visibility) (reach : Reach) :
    Turn σ :=
  r.update fun t =>
    match t.held.get? event with
    | some h => { t with held := t.held.insert event (h.add (v, reach)) }
    | none =>
      if Tracker.maxHeld ≤ t.held.size then t
      else { t with held := t.held.insert event ⟨room, [(v, reach)]⟩ }

/-! ## New messages -/

def readOwn [Backing σ] (r : Turn σ) (p : Placed) : Turn σ :=
  let t := r.tracker
  match t.chronicle.get? p.id with
  | none => r
  | some e =>
    if e.message.sender = t.reader ∧ t.policy.ownMessagesRead then
      r.readElsewhere ⟨p.scope, p.id, p.position.sequence⟩ .shared
    else r

def releaseHeld [Backing σ] (r : Turn σ) (p : Placed) : Turn σ :=
  match r.tracker.held.get? p.id with
  | none => r
  | some h =>
    let r := r.update fun t => { t with held := t.held.erase p.id }
    h.receipts.foldl
      (fun r w => r.applyReceipt ⟨p.scope, p.id, p.position.sequence⟩ w.1 w.2) r

def afterPlacing [Backing σ] (r : Turn σ) (placed : List Placed) : Turn σ :=
  placed.foldl (fun r p => (r.readOwn p).releaseHeld p) r

def followLive [Backing σ] (r : Turn σ) (room : RoomId) (placed : List Placed)
    (limited : Bool) : Turn σ :=
  match r.tracker.focus with
  | none => r
  | some focus =>
    if focus.room = room ∧ focus.live then
      -- A limited batch reads both scopes even where it brought nothing new.
      let touched := fun s => limited || placed.any fun p => p.scope == s
      let r := if touched (.ofRoom room) then r.readToEnd (.ofRoom room) else r
      match focus.thread with
      | none => r
      | some root =>
        if touched (.ofThread room root) then r.readToEnd (.ofThread room root) else r
    else r

/-! ## Jumps -/

def barrier (c : Chronicle) (event : EventId) (includeThreads : Bool) : Option EventId :=
  if includeThreads then none else (c.scope? event).bind (·.thread)

def land [Backing σ] (r : Turn σ) (room : RoomId) (e : Indexed) : Turn σ :=
  let c := r.tracker.chronicle
  let live := match c.latest e.scope with
    | some head => head.message.id == e.message.id
    | none => false
  (r.update fun t => { t with focus := some ⟨room, e.scope.thread, live⟩ }).read
    ⟨e.scope, e.message.id, e.position.sequence⟩

/-! ## The end of a turn -/

def report (r : Turn σ) (room : RoomId) : Turn σ :=
  let t := r.tracker
  let state := t.roomState room
  if t.reported.get? room = some state then r
  else
    { r with
      tracker := { t with reported := t.reported.insert room state }
      notices := r.notices ++ t.listeners.notices state }

def releaseAt (r : Turn σ) (now : Nat) : Turn σ :=
  let (sends, due) := r.tracker.sends.release now
  { r with
    tracker := { r.tracker with sends }
    actions := r.actions ++ due.map fun o => .send o.slot.scope o.event o.slot.visibility }

def release (r : Turn σ) : Turn σ := r.releaseAt r.tracker.ambient.elapsed

end Turn

end ReadTracking
