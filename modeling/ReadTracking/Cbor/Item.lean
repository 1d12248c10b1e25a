import ReadTracking.Bytes.BigEndian
import ReadTracking.Bytes.Utf8

/-!
# CBOR items

The items of the binary data format CBOR, written with definite lengths and the shortest
numbers.  The reader also takes wider numbers, texts and lists of indefinite length and tags,
and leaves what follows the first item.
-/

set_option autoImplicit false

namespace ReadTracking.Cbor

inductive Item where
  | unsigned (n : Nat)
  /-- The number `-1 - n`. -/
  | negative (n : Nat)
  | bytes (b : List UInt8)
  | text (s : String)
  | chunkedBytes (b : List UInt8)
  | chunkedText (s : String)
  | array (items : List Item)
  | map (pairs : List (Item × Item))
  | tagged (tag : Nat) (item : Item)
  | simple (n : Nat)
  | float (payload : List UInt8)
  deriving Inhabited

namespace Item

def null : Item := simple 22

end Item

/-! ## Writing -/

def head (major n : Nat) : List UInt8 :=
  if n < 24 then [(major * 32 + n).toUInt8]
  else if n < 1 <<< 8 then (major * 32 + 24).toUInt8 :: bytesBigEndian 1 n
  else if n < 1 <<< 16 then (major * 32 + 25).toUInt8 :: bytesBigEndian 2 n
  else if n < 1 <<< 32 then (major * 32 + 26).toUInt8 :: bytesBigEndian 4 n
  else (major * 32 + 27).toUInt8 :: bytesBigEndian 8 n

mutual

def write : Item → List UInt8
  | .unsigned n => head 0 n
  | .negative n => head 1 n
  | .bytes b => head 2 b.length ++ b
  | .text s => head 3 (utf8 s).length ++ utf8 s
  | .chunkedBytes b => 0x5f :: (head 2 b.length ++ b) ++ [0xff]
  | .chunkedText s => 0x7f :: (head 3 (utf8 s).length ++ utf8 s) ++ [0xff]
  | .array items => head 4 items.length ++ writeItems items
  | .map pairs => head 5 pairs.length ++ writePairs pairs
  | .tagged tag item => head 6 tag ++ write item
  | .simple n => if n < 24 then [(224 + n).toUInt8] else [248, n.toUInt8]
  | .float payload =>
    (if payload.length = 2 then 249 else if payload.length = 4 then 250 else 251) :: payload

def writeItems : List Item → List UInt8
  | [] => []
  | i :: is => write i ++ writeItems is

def writePairs : List (Item × Item) → List UInt8
  | [] => []
  | (k, v) :: ps => write k ++ write v ++ writePairs ps

end

/-! ## Reading -/

inductive Head where
  | number (major n : Nat)
  | open (major : Nat)
  | stop
  | float (payload : List UInt8)
  deriving DecidableEq, Repr, Inhabited

def split? (n : Nat) (bytes : List UInt8) : Option (List UInt8 × List UInt8) :=
  if n ≤ bytes.length then some (bytes.take n, bytes.drop n) else none

def width? : Nat → Option Nat
  | 24 => some 1
  | 25 => some 2
  | 26 => some 4
  | 27 => some 8
  | _ => none

def readHead : List UInt8 → Option (Head × List UInt8)
  | [] => none
  | b :: rest =>
    let major := b.toNat / 32
    let minor := b.toNat % 32
    if minor < 24 then some (.number major minor, rest)
    else if minor = 31 then
      if major = 7 then some (.stop, rest)
      else if 2 ≤ major ∧ major ≤ 5 then some (.open major, rest)
      else none
    else
      (width? minor).bind fun w =>
        (split? w rest).map fun (payload, rest) =>
          if major = 7 ∧ 25 ≤ minor then (.float payload, rest)
          else (.number major (natBigEndian payload), rest)

def readChunks : (fuel nesting major : Nat) → List UInt8 →
    Option (List (List UInt8) × List UInt8)
  | 0, _, _, _ => none
  | fuel + 1, nesting, major, bytes =>
    match readHead bytes with
    | some (.stop, rest) =>
      if nesting = 0 then some ([], rest) else readChunks fuel (nesting - 1) major rest
    | some (.open m, rest) =>
      if m = major then readChunks fuel (nesting + 1) major rest else none
    | some (.number m n, rest) =>
      if m = major then
        (split? n rest).bind fun (chunk, rest) =>
          (readChunks fuel nesting major rest).map fun (chunks, rest) => (chunk :: chunks, rest)
      else none
    | _ => none

def joinTexts (chunks : List (List UInt8)) : Option String :=
  (chunks.mapM text?).map fun ts => ts.foldl (· ++ ·) ""

mutual

def readItem : (fuel : Nat) → List UInt8 → Option (Item × List UInt8)
  | 0, _ => none
  | fuel + 1, bytes =>
    match readHead bytes with
    | none => none
    | some (.stop, _) => none
    | some (.float payload, rest) => some (.float payload, rest)
    | some (.number 0 n, rest) => some (.unsigned n, rest)
    | some (.number 1 n, rest) => some (.negative n, rest)
    | some (.number 2 n, rest) =>
      (split? n rest).map fun (b, rest) => (.bytes b, rest)
    | some (.number 3 n, rest) =>
      (split? n rest).bind fun (b, rest) => (text? b).map fun s => (.text s, rest)
    | some (.number 4 n, rest) =>
      (readItems fuel n rest).map fun (is, rest) => (.array is, rest)
    | some (.number 5 n, rest) =>
      (readPairs fuel n rest).map fun (ps, rest) => (.map ps, rest)
    | some (.number 6 n, rest) =>
      (readItem fuel rest).map fun (i, rest) => (.tagged n i, rest)
    | some (.number _ n, rest) => some (.simple n, rest)
    | some (.open 2, rest) =>
      (readChunks bytes.length 0 2 rest).map fun (chunks, rest) =>
        (.chunkedBytes chunks.flatten, rest)
    | some (.open 3, rest) =>
      (readChunks bytes.length 0 3 rest).bind fun (chunks, rest) =>
        (joinTexts chunks).map fun s => (.chunkedText s, rest)
    | some (.open 4, rest) =>
      (readItemsToStop fuel rest).map fun (is, rest) => (.array is, rest)
    | some (.open _, rest) =>
      (readPairsToStop fuel rest).map fun (ps, rest) => (.map ps, rest)

def readItems : (fuel n : Nat) → List UInt8 → Option (List Item × List UInt8)
  | _, 0, rest => some ([], rest)
  | 0, _ + 1, _ => none
  | fuel + 1, n + 1, bytes =>
    (readItem fuel bytes).bind fun (i, rest) =>
      (readItems fuel n rest).map fun (is, rest) => (i :: is, rest)

def readPairs : (fuel n : Nat) → List UInt8 → Option (List (Item × Item) × List UInt8)
  | _, 0, rest => some ([], rest)
  | 0, _ + 1, _ => none
  | fuel + 1, n + 1, bytes =>
    (readItem fuel bytes).bind fun (k, rest) =>
      (readItem fuel rest).bind fun (v, rest) =>
        (readPairs fuel n rest).map fun (ps, rest) => ((k, v) :: ps, rest)

def readItemsToStop : (fuel : Nat) → List UInt8 → Option (List Item × List UInt8)
  | 0, _ => none
  | fuel + 1, bytes =>
    match readHead bytes with
    | some (.stop, rest) => some ([], rest)
    | _ =>
      (readItem fuel bytes).bind fun (i, rest) =>
        (readItemsToStop fuel rest).map fun (is, rest) => (i :: is, rest)

def readPairsToStop : (fuel : Nat) → List UInt8 → Option (List (Item × Item) × List UInt8)
  | 0, _ => none
  | fuel + 1, bytes =>
    match readHead bytes with
    | some (.stop, rest) => some ([], rest)
    | _ =>
      (readItem fuel bytes).bind fun (k, rest) =>
        (readItem fuel rest).bind fun (v, rest) =>
          (readPairsToStop fuel rest).map fun (ps, rest) => ((k, v) :: ps, rest)

end

def readNext (bytes : List UInt8) : Option (Item × List UInt8) :=
  -- Every item takes a byte, so twice their number bounds the depth of the reading.
  readItem (2 * bytes.length + 2) bytes

end ReadTracking.Cbor
