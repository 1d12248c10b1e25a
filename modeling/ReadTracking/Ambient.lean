import ReadTracking.Keystream
import ReadTracking.Sum64

/-!
# Time and chance around the tracker

The tracker reads no clock and no source of chance of its own.  Its surroundings are a value: the
time that has passed since the start and a source of random bytes.  The wall clock starts at a
fixed date and is a 64-bit count of milliseconds.  When the count since the start reaches past
what the start leaves of the 64 bits, there is no date until it comes round.
-/

set_option autoImplicit false

namespace ReadTracking

inductive Chance where
  | counter (given : Nat)
  | stream (k : Keystream)
  deriving DecidableEq, Repr, Inhabited

namespace Chance

def counted : (chunks : Nat) → Nat → Nat → List UInt8
  | 0, _, _ => []
  | chunks + 1, given, n =>
    (bytesBigEndian 8 (given + 1)).take (min n 8) ++ counted chunks (given + 1) (n - 8)

def bytes : Chance → Nat → Chance × List UInt8
  | .counter given, n =>
    let chunks := (n + 7) / 8
    (.counter (given + chunks), counted chunks given n)
  | .stream k, n =>
    let (k, bs) := k.bytes n
    (.stream k, bs)

def number (c : Chance) : Chance × Nat :=
  let (c, bs) := c.bytes 8
  (c, natBigEndian bs)

end Chance

structure Ambient where
  /-- Nanoseconds since the start. -/
  elapsed : Nat := 0
  chance : Chance
  deriving DecidableEq, Repr, Inhabited

namespace Ambient

def epoch : Nat := 1700000000000

def counting : Ambient := { chance := .counter 0 }

def seeded (seed : Nat) : Ambient := { chance := .stream (.ofSeed seed) }

def nanosPerMilli : Nat := 1000000

def wait (a : Ambient) (nanos : Nat) : Ambient := { a with elapsed := a.elapsed + nanos }

def elapsedMillis (a : Ambient) : Nat := a.elapsed / nanosPerMilli

def wallClock (a : Ambient) : Nat := (epoch + a.elapsedMillis) % Sum64.bound

def date? (a : Ambient) : Option Nat := Sum64.add? epoch (a.elapsedMillis % Sum64.bound)

def hasDate (a : Ambient) : Bool := a.date?.isSome

def bytes (a : Ambient) (n : Nat) : Ambient × List UInt8 :=
  let (c, bs) := a.chance.bytes n
  ({ a with chance := c }, bs)

def number (a : Ambient) : Ambient × Nat :=
  let (c, n) := a.chance.number
  ({ a with chance := c }, n)

end Ambient

end ReadTracking
