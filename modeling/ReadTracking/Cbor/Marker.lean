import ReadTracking.Cbor.Item
import ReadTracking.Fields
import ReadTracking.Marker

/-!
# Stored markers

A stored marker is a CBOR map of six named fields.  The reader takes the fields in any order and
passes over fields it does not know; a missing thread means the main timeline.  The visibility is
a choice among names, and the head of a map with one pair may stand before its name.  Such a map
is not read to its end: what follows the name is read as if the map were not there.
-/

set_option autoImplicit false

namespace ReadTracking.Cbor

/-! ## Writing -/

def markerFields (e : Entry) : Fields Item :=
  [("room_id", .text e.slot.scope.room.text),
    ("thread_id", match e.slot.scope.thread with
      | none => .null
      | some root => .text root.text),
    ("kind", .text e.slot.visibility.word),
    ("event_id", .text e.mark.event.text),
    ("sequence", .unsigned e.mark.sequence),
    ("updated_at_ms", .unsigned e.mark.stamp)]

def record (fs : Fields Item) : Item := .map (fs.map fun f => (.text f.1, f.2))

def writeMarker (e : Entry) : List UInt8 := write (record (markerFields e))

/-! ## Reading -/

def untagged : Item → Item
  | .tagged _ item => untagged item
  | item => item

def number? : Item → Option Nat
  | .unsigned n => some n
  | .tagged 2 (.bytes b) | .tagged 2 (.chunkedBytes b) =>
    let n := natBigEndian b
    if n < 1 <<< 64 then some n else none
  | .tagged 2 _ | .tagged 3 _ => none
  | .tagged _ item => number? item
  | _ => none

def string? (item : Item) : Option String :=
  match untagged item with
  | .text s | .chunkedText s => some s
  | _ => none

def stringOrNull? : Item → Option (Option String)
  | .simple 22 | .simple 23 => some none
  | item => (string? item).map some

def maxName : Nat := 4096

def name? (item : Item) : Option (List UInt8) :=
  (match untagged item with
    | .text s => some (utf8 s)
    | .bytes b => some b
    | _ => none).filter fun b => decide (b.length ≤ maxName)

def visibility? (item : Item) : Option Visibility :=
  (name? item).bind fun name =>
    [Visibility.shared, Visibility.personal].find? fun v => utf8 v.word == name

/-- The whole number that a tagged item stands for in at most sixteen bytes, and whether it is
negative: it is `n`, or else `-1 - n`. -/
def bigNumberOf? (tag : Nat) : Item → Option (Bool × Nat)
  | .bytes b =>
    if (tag = 2 ∨ tag = 3) ∧ b.length ≤ 16 then some (tag == 3, natBigEndian b) else none
  | _ => none

mutual

def skippable : (depth : Nat) → Item → Bool
  | _, .unsigned _ | _, .negative _ | _, .bytes _ | _, .text _ | _, .chunkedBytes _
  | _, .chunkedText _ | _, .float _ => true
  | depth, .array items =>
    match depth with
    | 0 => false
    | depth + 1 => skippableItems depth items
  | depth, .map pairs =>
    match depth with
    | 0 => false
    | depth + 1 => skippablePairs depth pairs
  | depth, .tagged tag item =>
    -- A tag nests, unless it makes bytes a number.
    match bigNumberOf? tag item with
    | some (negative, n) => !negative || decide (n < 1 <<< 127)
    | none =>
      match depth with
      | 0 => false
      | depth + 1 => skippable depth item
  | _, .simple n => decide (20 ≤ n ∧ n ≤ 23)

def skippableItems : (depth : Nat) → List Item → Bool
  | _, [] => true
  | depth, i :: is => skippable depth i && skippableItems depth is

def skippablePairs : (depth : Nat) → List (Item × Item) → Bool
  | _, [] => true
  | depth, (k, v) :: ps => skippable depth k && skippable depth v && skippablePairs depth ps

end

def maxDepth : Nat := 255

def markerNames : List String :=
  ["room_id", "thread_id", "kind", "event_id", "sequence", "updated_at_ms"]

def skipTags : (fuel : Nat) → List UInt8 → List UInt8
  | 0, bytes => bytes
  | fuel + 1, bytes =>
    match readHead bytes with
    | some (.number 6 _, rest) => skipTags fuel rest
    | _ => bytes

def readUntaggedHead (bytes : List UInt8) : Option (Head × List UInt8) :=
  readHead (skipTags bytes.length bytes)

def readChoice (bytes : List UInt8) : Option (Item × List UInt8) :=
  match readUntaggedHead bytes with
  | some (.number 3 _, _) => readNext bytes
  | some (.number 5 1, rest) => readNext rest
  | _ => none

def readValue (name : String) (bytes : List UInt8) : Option (Item × List UInt8) :=
  if name = "kind" then readChoice bytes else readNext bytes

def readField (bytes : List UInt8) : Option (Option (String × Item) × List UInt8) :=
  (readNext bytes).bind fun (k, rest) =>
    (name? k).bind fun name =>
      match markerNames.find? fun n => utf8 n == name with
      | some n => (readValue n rest).map fun (v, rest) => (some (n, v), rest)
      | none =>
        (readNext rest).bind fun (v, rest) =>
          if skippable maxDepth v then some (none, rest) else none

def readFields : (fuel : Nat) → (left : Option Nat) → List UInt8 → Option (Fields Item)
  | _, some 0, _ => some []
  | 0, _, _ => none
  | fuel + 1, some (n + 1), bytes =>
    (readField bytes).bind fun (f, rest) =>
      (readFields fuel (some n) rest).map (f.toList ++ ·)
  | fuel + 1, none, bytes =>
    match readHead bytes with
    | some (.stop, _) => some []
    | _ =>
      (readField bytes).bind fun (f, rest) =>
        (readFields fuel none rest).map (f.toList ++ ·)

def markerOfFields (fs : Fields Item) : Option Entry := do
  let room ← (fs.required "room_id").bind string?
  let thread ← match fs.optional "thread_id" with
    | none => none
    | some none => some none
    | some (some item) => stringOrNull? item
  let visibility ← (fs.required "kind").bind visibility?
  let event ← (fs.required "event_id").bind string?
  let sequence ← (fs.required "sequence").bind number?
  let stamp ← (fs.required "updated_at_ms").bind number?
  some ⟨⟨⟨⟨room⟩, thread.map .mk⟩, visibility⟩, ⟨⟨event⟩, sequence, stamp⟩⟩

def readMarker (bytes : List UInt8) : Option Entry :=
  match readUntaggedHead bytes with
  | some (.number 5 n, rest) => (readFields rest.length (some n) rest).bind markerOfFields
  | some (.open 5, rest) => (readFields rest.length none rest).bind markerOfFields
  | _ => none

end ReadTracking.Cbor
