import ReadTracking.Bytes.BigEndian

/-!
# A seeded stream of words

The ChaCha keystream with eight rounds, as a stream of 32-bit words that is a function of the
key and of the place in the stream alone.  A seed of 64 bits is spread over a key of 256 bits by
a permuted congruential generator.  Chances are drawn from the stream in exact arithmetic.
-/

set_option autoImplicit false

namespace ReadTracking

/-! ## Words -/

def rotateLeft (x : UInt32) (n : UInt32) : UInt32 := (x <<< n) ||| (x >>> (32 - n))

def rotateRight (x : UInt32) (n : UInt32) : UInt32 :=
  if n = 0 then x else (x >>> n) ||| (x <<< (32 - n))

def bytesLittleEndian (x : UInt32) : List UInt8 :=
  [x.toUInt8, (x >>> 8).toUInt8, (x >>> 16).toUInt8, (x >>> 24).toUInt8]

namespace Keystream

/-! ## Blocks -/

def quarter (s : Array UInt32) (a b c d : Nat) : Array UInt32 :=
  let xa := s.getD a 0
  let xb := s.getD b 0
  let xc := s.getD c 0
  let xd := s.getD d 0
  let xa := xa + xb
  let xd := rotateLeft (xd ^^^ xa) 16
  let xc := xc + xd
  let xb := rotateLeft (xb ^^^ xc) 12
  let xa := xa + xb
  let xd := rotateLeft (xd ^^^ xa) 8
  let xc := xc + xd
  let xb := rotateLeft (xb ^^^ xc) 7
  ((s.setIfInBounds a xa).setIfInBounds b xb).setIfInBounds c xc |>.setIfInBounds d xd

def doubleRound (s : Array UInt32) : Array UInt32 :=
  let s := quarter s 0 4 8 12
  let s := quarter s 1 5 9 13
  let s := quarter s 2 6 10 14
  let s := quarter s 3 7 11 15
  let s := quarter s 0 5 10 15
  let s := quarter s 1 6 11 12
  let s := quarter s 2 7 8 13
  quarter s 3 4 9 14

def mixed : Nat → Array UInt32 → Array UInt32
  | 0, s => s
  | n + 1, s => mixed n (doubleRound s)

def seedBlock (key : List UInt32) (block : Nat) : Array UInt32 :=
  -- Four constants, the key, the number of the block in two words, and two zeros.
  (([0x61707865, 0x3320646e, 0x79622d32, 0x6b206574] : List UInt32) ++ key ++
    [block.toUInt32, (block >>> 32).toUInt32, 0, 0]).toArray

def block (key : List UInt32) (n : Nat) : Array UInt32 :=
  let s := seedBlock key n
  (mixed 4 s).zipWith (· + ·) s

end Keystream

structure Keystream where
  key : List UInt32
  taken : Nat
  deriving DecidableEq, Repr, Inhabited

namespace Keystream

/-! ## Seeds -/

def seedWord (state : UInt64) : UInt32 × UInt64 :=
  let state := state * 6364136223846793005 + 11634580027462260723
  let mixed := (((state >>> 18) ^^^ state) >>> 27).toUInt32
  (rotateRight mixed (state >>> 59).toUInt32, state)

def seedWords : Nat → UInt64 → List UInt32
  | 0, _ => []
  | n + 1, state =>
    let (w, state) := seedWord state
    w :: seedWords n state

def ofSeed (seed : Nat) : Keystream := ⟨seedWords 8 seed.toUInt64, 0⟩

/-! ## Draws -/

def wordAt (key : List UInt32) (n : Nat) : UInt32 := (block key (n / 16)).getD (n % 16) 0

def words (k : Keystream) (n : Nat) : Keystream × List UInt32 :=
  ({ k with taken := k.taken + n }, (List.range n).map fun i => wordAt k.key (k.taken + i))

def bytes (k : Keystream) (n : Nat) : Keystream × List UInt8 :=
  let (k, ws) := k.words ((n + 3) / 4)
  (k, (ws.flatMap bytesLittleEndian).take n)

def draw (k : Keystream) : Keystream × Nat :=
  let (k, ws) := k.words 2
  (k, ws.foldr (fun w n => w.toNat + n <<< 32) 0)

/-- Draw an event whose chance is `odds` in 2^64.  A sure event draws nothing. -/
def chance (k : Keystream) (odds : Nat) : Keystream × Bool :=
  if 1 <<< 64 ≤ odds then (k, true)
  else
    let (k, n) := k.draw
    (k, decide (n < odds))

end Keystream

end ReadTracking
