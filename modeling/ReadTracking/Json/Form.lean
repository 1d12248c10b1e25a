import ReadTracking.Countable
import ReadTracking.Json.Reader
import ReadTracking.Marker
import ReadTracking.Tracker.State

/-!
# The JSON forms of the domain

A record is written with its fields in a fixed order.  It is read with its fields in any order,
other fields passed over, or as the list of its values in the written order.  A choice is
written as the name of the alternative, or as a record of that name and its content.  A missing
thread means the main timeline, and a missing part of a policy has its default.
-/

set_option autoImplicit false

namespace ReadTracking.Json

class Form (α : Type) where
  write : α → Value
  read? : Value → Option α

def textOf {α : Type} [Form α] (a : α) : String := (Form.write a).toText

def ofText? {α : Type} [Form α] (s : String) : Option α := (Value.ofText? s).bind Form.read?

/-! ## Plain values -/

namespace Value

def bool? : Value → Option Bool
  | .bool b => some b
  | _ => none

def below? (bound : Nat) : Value → Option Nat
  | .whole n => if n < bound then some n else none
  | _ => none

def number? : Value → Option Nat := below? (1 <<< 64)

def text? : Value → Option String
  | .text s => some s
  | _ => none

def textOrNull? : Value → Option (Option String)
  | .null => some none
  | .text s => some (some s)
  | _ => none

def fields? (names : List String) : Value → Option (Fields Value)
  | .record fs => some fs
  | .list vs => if vs.length = names.length then some (names.zip vs) else none
  | _ => none

def someFields? (names : List String) : Value → Option (Fields Value)
  | .record fs => some fs
  | .list vs => if vs.length ≤ names.length then some (names.zip vs) else none
  | _ => none

def choice? : Value → Option (String × Option Value)
  | .text s => some (s, none)
  | .record [(k, v)] => some (k, some v)
  | _ => none

def word? (v : Value) : Option String :=
  match v.choice? with
  | some (w, none) | some (w, some .null) => some w
  | _ => none

end Value

def orMissing {α : Type} (field : Option (Option Value)) (read : Value → Option (Option α)) :
    Option (Option α) :=
  field.bind fun v => match v with
    | some v => read v
    | none => some none

def orDefault {α : Type} (field : Option (Option Value)) (read : Value → Option α)
    (default : α) : Option α :=
  field.bind fun v => match v with
    | some v => read v
    | none => some default

def ofOption : Option String → Value
  | some s => .text s
  | none => .null

/-! ## Names -/

instance : Form RoomId := ⟨fun r => .text r.text, fun v => v.text?.map .mk⟩

instance : Form EventId := ⟨fun e => .text e.text, fun v => v.text?.map .mk⟩

instance : Form UserId := ⟨fun u => .text u.text, fun v => v.text?.map .mk⟩

def scopeNames : List String := ["room_id", "thread_id"]

instance : Form Scope where
  write s :=
    .record [("room_id", .text s.room.text), ("thread_id", ofOption (s.thread.map (·.text)))]
  read? v := do
    let fs ← v.fields? scopeNames
    let room ← (fs.required "room_id").bind Value.text?
    let thread ← orMissing (fs.optional "thread_id") Value.textOrNull?
    some ⟨⟨room⟩, thread.map .mk⟩

instance : Form Visibility where
  write v := .text v.word
  read? v := v.word?.bind Visibility.ofWord?

def reachWord : Reach → String
  | .scope => "Threaded"
  | .room => "Unthreaded"

instance : Form Reach where
  write r := .text (reachWord r)
  read? v := v.word?.bind fun w =>
    if w = "Threaded" then some .scope else if w = "Unthreaded" then some .room else none

/-! ## Messages -/

def alternative (name : String) (fs : Fields Value) : Value := .record [(name, .record fs)]

def onlyField? (v : Value) (name : String) : Option Value :=
  (v.fields? [name]).bind (·.required name)

def reactionNames : List String := ["target", "key"]

instance : Form Content where
  write
    | .plain => .text "Message"
    | .reply target => alternative "Reply" [("target", .text target.text)]
    | .threadReply root => alternative "ThreadReply" [("root", .text root.text)]
    | .edit target => alternative "Edit" [("target", .text target.text)]
    | .reaction target key =>
      alternative "Reaction" [("target", .text target.text), ("key", .text key)]
    | .state notify => alternative "State" [("notify", .bool notify)]
    | .other => .text "Other"
  read? v :=
    match v.choice? with
    | some ("Message", none) | some ("Message", some .null) => some .plain
    | some ("Other", none) | some ("Other", some .null) => some .other
    | some ("Reply", some v) =>
      ((onlyField? v "target").bind Value.text?).map fun s => .reply ⟨s⟩
    | some ("ThreadReply", some v) =>
      ((onlyField? v "root").bind Value.text?).map fun s => .threadReply ⟨s⟩
    | some ("Edit", some v) =>
      ((onlyField? v "target").bind Value.text?).map fun s => .edit ⟨s⟩
    | some ("Reaction", some v) => do
      let fs ← v.fields? reactionNames
      let target ← (fs.required "target").bind Value.text?
      let key ← (fs.required "key").bind Value.text?
      some (.reaction ⟨target⟩ key)
    | some ("State", some v) =>
      ((onlyField? v "notify").bind Value.bool?).map .state
    | _ => none

def messageNames : List String :=
  ["event_id", "room_id", "sender", "sequence", "content", "highlight"]

instance : Form Message where
  write m :=
    .record [("event_id", .text m.id.text), ("room_id", .text m.room.text),
      ("sender", .text m.sender.text), ("sequence", .whole m.sequence),
      ("content", Form.write m.content), ("highlight", .bool m.highlight)]
  read? v := do
    let fs ← v.fields? messageNames
    let id ← (fs.required "event_id").bind Value.text?
    let room ← (fs.required "room_id").bind Value.text?
    let sender ← (fs.required "sender").bind Value.text?
    let sequence ← (fs.required "sequence").bind Value.number?
    let content ← (fs.required "content").bind Form.read?
    let highlight ← (fs.required "highlight").bind Value.bool?
    some ⟨⟨id⟩, ⟨room⟩, ⟨sender⟩, sequence, content, highlight⟩

/-! ## Stored markers -/

def entryNames : List String :=
  ["room_id", "thread_id", "kind", "event_id", "sequence", "updated_at_ms"]

instance : Form Entry where
  write e :=
    .record [("room_id", .text e.slot.scope.room.text),
      ("thread_id", ofOption (e.slot.scope.thread.map (·.text))),
      ("kind", Form.write e.slot.visibility), ("event_id", .text e.mark.event.text),
      ("sequence", .whole e.mark.sequence), ("updated_at_ms", .whole e.mark.stamp)]
  read? v := do
    let fs ← v.fields? entryNames
    let room ← (fs.required "room_id").bind Value.text?
    let thread ← orMissing (fs.optional "thread_id") Value.textOrNull?
    let visibility ← (fs.required "kind").bind Form.read?
    let event ← (fs.required "event_id").bind Value.text?
    let sequence ← (fs.required "sequence").bind Value.number?
    let stamp ← (fs.required "updated_at_ms").bind Value.number?
    some ⟨⟨⟨⟨room⟩, thread.map .mk⟩, visibility⟩, ⟨⟨event⟩, sequence, stamp⟩⟩

/-! ## Policies -/

def nanosPerSecond : Nat := 1000000000

def durationNames : List String := ["secs", "nanos"]

def writeDuration (nanos : Nat) : Value :=
  .record [("secs", .whole (nanos / nanosPerSecond)), ("nanos", .whole (nanos % nanosPerSecond))]

def Value.onlyNames (names : List String) : Value → Bool
  | .record fs => fs.all fun f => names.contains f.1
  | _ => true

/-- A length of time.  Nanoseconds carry into the seconds, which must stay below 2^64. -/
def readDuration? (v : Value) : Option Nat := do
  let fs ← v.fields? durationNames
  let secs ← (fs.required "secs").bind Value.number?
  let nanos ← (fs.required "nanos").bind (Value.below? (1 <<< 32))
  if v.onlyNames durationNames && decide (secs + nanos / nanosPerSecond < 1 <<< 64) then
    some (secs * nanosPerSecond + nanos)
  else none

def policyNames : List String :=
  ["count_edits", "count_notifying_state_events", "own_events_mark_read",
    "send_public_receipts", "receipt_debounce"]

instance : Form Policy where
  write p :=
    .record [("count_edits", .bool p.countEdits),
      ("count_notifying_state_events", .bool p.countNotifyingState),
      ("own_events_mark_read", .bool p.ownMessagesRead),
      ("send_public_receipts", .bool p.sendShared),
      ("receipt_debounce", writeDuration p.debounce)]
  read? v := do
    let fs ← v.someFields? policyNames
    let standard : Policy := {}
    let countEdits ← orDefault (fs.optional "count_edits") Value.bool? standard.countEdits
    let countNotifyingState ← orDefault (fs.optional "count_notifying_state_events")
      Value.bool? standard.countNotifyingState
    let ownMessagesRead ← orDefault (fs.optional "own_events_mark_read") Value.bool?
      standard.ownMessagesRead
    let sendShared ← orDefault (fs.optional "send_public_receipts") Value.bool?
      standard.sendShared
    let debounce ← orDefault (fs.optional "receipt_debounce") readDuration? standard.debounce
    some { countEdits, countNotifyingState, ownMessagesRead, sendShared, debounce }

end ReadTracking.Json
