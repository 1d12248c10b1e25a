import ReadTracking.Message

/-!
# Strands

A strand is one scope as the index keeps it: its messages in the order of their positions, and
its gaps.  A gap is the sequence just behind a stretch of messages that were never delivered.
-/

set_option autoImplicit false

namespace ReadTracking

/-- The messages of one scope in order, with its gaps. -/
structure Strand where
  entries : Table Position EventId
  /-- The sequences that lie just behind a stretch of missing messages. -/
  gaps : Table Nat Unit
  deriving DecidableEq, Inhabited

namespace Strand

def empty : Strand := ⟨.empty, .empty⟩

def add (s : Strand) (p : Position) (id : EventId) : Strand :=
  { s with entries := s.entries.insert p id }

def openGap (s : Strand) (sequence : Nat) : Strand :=
  { s with gaps := s.gaps.insert sequence () }

def closeGap (s : Strand) (sequence : Nat) : Strand :=
  { s with gaps := s.gaps.erase sequence }

def lastGap (s : Strand) : Option Nat := s.gaps.last?.map (·.1)

def hasGapAfter (s : Strand) : Option Nat → Bool
  | some q => s.gaps.keys.any (fun g => decide (q < g))
  | none => !s.gaps.isEmpty

def after (s : Strand) : Option Cursor → List EventId
  | some c => (s.entries.filter (fun p _ => c.isBefore p)).values
  | none => s.entries.values

def latest (s : Strand) : Option EventId := s.entries.last?.map (·.2)

def floor (s : Strand) (sequence : Nat) : Option EventId :=
  (s.entries.filter (fun p _ => decide (p.sequence ≤ sequence))).last?.map (·.2)

def firstPosition (s : Strand) : Option Position := s.entries.first?.map (·.1)

def length (s : Strand) : Nat := s.entries.size

end Strand

structure RoomLog where
  trunk : Strand
  threads : Table EventId Strand
  deriving DecidableEq, Inhabited

namespace RoomLog

def empty : RoomLog := ⟨.empty, .empty⟩

def strand? (log : RoomLog) : Option EventId → Option Strand
  | none => some log.trunk
  | some root => log.threads.get? root

def add (log : RoomLog) (thread : Option EventId) (p : Position) (id : EventId) : RoomLog :=
  match thread with
  | none => { log with trunk := log.trunk.add p id }
  | some root =>
    let strand := (log.threads.get? root).getD .empty
    { log with threads := log.threads.insert root (strand.add p id) }

def openGap (log : RoomLog) (roots : List EventId) (sequence : Nat) : RoomLog where
  trunk := log.trunk.openGap sequence
  threads := log.threads.mapValues fun root s =>
    if root ∈ roots then s.openGap sequence else s

def closeGap (log : RoomLog) (sequence : Nat) : RoomLog where
  trunk := log.trunk.closeGap sequence
  threads := log.threads.mapValues fun _ s => s.closeGap sequence

def hasGap (log : RoomLog) (sequence : Nat) : Bool :=
  log.trunk.gaps.contains sequence ||
    log.threads.values.any fun s => s.gaps.contains sequence

end RoomLog

end ReadTracking
