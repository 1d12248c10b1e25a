import ReadTracking.Backing
import ReadTracking.Keystream
import ReadTracking.Rate

/-!
# A storage with faults

A faulty storage fails a fraction of its calls, drawn from a seeded stream, before they reach the
storage inside.  A failed call changes nothing there.
-/

set_option autoImplicit false

namespace ReadTracking

structure Faulty (σ : Type) where
  inner : σ
  /-- How often a call fails, in 2^64-ths. -/
  odds : Nat
  stream : Keystream
  operations : Nat
  failures : Nat
  deriving DecidableEq, Inhabited

namespace Faulty

variable {σ : Type}

def defaultSeed : Nat := 0x5EED0FC4A05000

def around (inner : σ) (odds seed : Nat) : Faulty σ := ⟨inner, odds, .ofSeed seed, 0, 0⟩

def injected (name : String) : StorageError := .io ("injected failure in " ++ name)

def roll (f : Faulty σ) : Faulty σ × Bool :=
  let (stream, failed) := f.stream.chance f.odds
  ({ f with
      stream
      operations := f.operations + 1
      failures := if failed then f.failures + 1 else f.failures }, failed)

def call {α : Type} (name : String) (act : σ → Called α σ) (f : Faulty σ) :
    Called α (Faulty σ) :=
  match f.roll with
  | (f, true) => (.error (injected name), f)
  | (f, false) =>
    let (answer, inner) := act f.inner
    (answer, { f with inner })

instance [Backing σ] : Backing (Faulty σ) where
  store e := call "store_marker" (Backing.store e)
  storeAll es := call "store_markers" (Backing.storeAll es)
  load slot := call "load_marker" (Backing.load slot)
  loadRoom room := call "load_room_markers" (Backing.loadRoom room)
  list := call "list_markers" Backing.list
  forget room := call "forget_room" (Backing.forget room)

end Faulty

end ReadTracking
