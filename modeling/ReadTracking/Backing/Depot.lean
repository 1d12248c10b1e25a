import ReadTracking.Backing.ByteTable
import ReadTracking.Backing.Faulty
import ReadTracking.Backing.Rationed
import ReadTracking.Backing.Shelf

/-!
# Storages of every kind

A depot is one of the storages of this library.  Beside the calls of a storage it can be closed
and opened again, looked into without a call, and, where it holds bytes, changed below the
markers.
-/

set_option autoImplicit false

namespace ReadTracking

inductive Depot where
  | shelf (s : Shelf)
  | bytes (t : ByteTable)
  | faultyShelf (f : Faulty Shelf)
  | faultyBytes (seed : Nat) (f : Faulty ByteTable)
  | rationed (r : Rationed Shelf)
  deriving DecidableEq, Inhabited

namespace Depot

def call {α : Type} (act : (σ : Type) → [Backing σ] → σ → Called α σ) : Depot → Called α Depot
  | .shelf s => let (a, s) := act Shelf s; (a, .shelf s)
  | .bytes t => let (a, t) := act ByteTable t; (a, .bytes t)
  | .faultyShelf f => let (a, f) := act (Faulty Shelf) f; (a, .faultyShelf f)
  | .faultyBytes seed f => let (a, f) := act (Faulty ByteTable) f; (a, .faultyBytes seed f)
  | .rationed r => let (a, r) := act (Rationed Shelf) r; (a, .rationed r)

instance : Backing Depot where
  store e := call fun _ => Backing.store e
  storeAll es := call fun _ => Backing.storeAll es
  load slot := call fun _ => Backing.load slot
  loadRoom room := call fun _ => Backing.loadRoom room
  list := call fun _ => Backing.list
  forget room := call fun _ => Backing.forget room

/-! ## Making a depot -/

inductive Kind where
  | shelf
  | bytes
  | faultyShelf
  | faultyBytes
  | rationed
  deriving DecidableEq, Repr, Inhabited

def badRate (rate : Rate) : String :=
  "failure_rate must be between 0.0 and 1.0, got " ++ rate.text

def make (kind : Kind) (rate : Rate) (seed : Option Nat) : Except String Depot :=
  match kind with
  | .shelf => .ok (.shelf .empty)
  | .bytes => .ok (.bytes .empty)
  | .rationed => .ok (.rationed (.around .empty))
  | .faultyShelf =>
    if rate.inRange then
      .ok (.faultyShelf (.around .empty rate.odds (seed.getD Faulty.defaultSeed)))
    else .error (badRate rate)
  | .faultyBytes =>
    if rate.inRange then
      .ok (.faultyBytes (seed.getD 0) (.around .empty rate.odds (seed.getD 0)))
    else .error (badRate rate)

def reopened : Depot → Depot
  -- The stream of failures begins anew, and the counts as well.
  | .faultyBytes seed f => .faultyBytes seed (.around f.inner f.odds seed)
  | d => d

def preload (es : List Entry) (d : Depot) : Depot :=
  es.foldl (fun d e => (Backing.store e d).2) d

def setBudget (budget : Option Nat) : Depot → Depot
  | .rationed r => .rationed { r with budget }
  | d => d

/-! ## Looking inside -/

def contents : Depot → List Entry
  | .shelf s => Entry.sort s.entries
  | .bytes t => Entry.sort t.entries
  | .faultyShelf f => Entry.sort f.inner.entries
  | .faultyBytes _ f => Entry.sort f.inner.entries
  | .rationed r => Entry.sort r.inner.entries

def callCounts : Depot → Option (Nat × Nat)
  | .faultyShelf f => some (f.operations, f.failures)
  | .faultyBytes _ f => some (f.operations, f.failures)
  | _ => none

def markerCount : Depot → Option Nat
  | .shelf s => some s.marks.size
  | .faultyShelf f => some f.inner.marks.size
  | .rationed r => some r.inner.marks.size
  | _ => none

def byteTable? : Depot → Option ByteTable
  | .bytes t => some t
  | .faultyBytes _ f => some f.inner
  | _ => none

def putRows (rows : List (List UInt8 × List UInt8)) : Depot → Depot
  | .bytes t => .bytes (t.putRows rows)
  | .faultyBytes seed f => .faultyBytes seed (.around (f.inner.putRows rows) f.odds seed)
  | d => d

/-! ## Trying again -/

def attempt {ε α σ : Type} (act : σ → Except ε α × σ) : (tries : Nat) → σ → Except ε α × σ
  | 0, s => act s
  | tries + 1, s =>
    match act s with
    | (.ok a, s) => (.ok a, s)
    | (.error why, s) => if tries = 0 then (.error why, s) else attempt act tries s

end Depot

end ReadTracking
