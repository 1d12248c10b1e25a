import ReadTracking.Backing

/-!
# The marker book

The book holds the shared and the personal marker of every scope and writes each advance through
to its storage.  A marker only moves to a greater sequence.  A write that fails leaves the marker
advanced in the book, and the book remembers the slot as unflushed until a later write of that
slot succeeds.
-/

set_option autoImplicit false

namespace ReadTracking

inductive Advance where
  | ignored
  | applied
  | unsaved (why : StorageError)
  deriving DecidableEq, Repr, Inhabited

def Advance.moved : Advance → Bool
  | .ignored => false
  | .applied | .unsaved _ => true

structure Update where
  scope : Scope
  event : EventId
  sequence : Nat
  deriving DecidableEq, Repr, Inhabited

structure MarkerBook (σ : Type) where
  storage : σ
  marks : Table Slot Mark
  unflushed : Table Slot Unit
  deriving DecidableEq, Inhabited

namespace MarkerBook

variable {σ : Type}

def marksOf (es : List Entry) : Table Slot Mark :=
  .ofList (es.map fun e => (e.slot, e.mark))

def openOver [Backing σ] (storage : σ) : Except StorageError (MarkerBook σ) × σ :=
  match Backing.list storage with
  | (.ok es, s) => (.ok ⟨s, marksOf es, .empty⟩, s)
  | (.error why, s) => (.error why, s)

def mark? (b : MarkerBook σ) (scope : Scope) (v : Visibility) : Option Mark :=
  b.marks.get? ⟨scope, v⟩

/-- The marker that decides what is read: the further of the two, the shared one if they are
level. -/
def effectiveSlot (b : MarkerBook σ) (scope : Scope) : Option (Visibility × Mark) :=
  match b.mark? scope .shared, b.mark? scope .personal with
  | some shared, some personal =>
    if shared.sequence < personal.sequence then some (.personal, personal)
    else some (.shared, shared)
  | some shared, none => some (.shared, shared)
  | none, personal => personal.map ((.personal, ·))

def readTo (b : MarkerBook σ) (scope : Scope) : Option Nat :=
  (b.effectiveSlot scope).map (·.2.sequence)

def covers (b : MarkerBook σ) (scope : Scope) (sequence : Nat) : Bool :=
  match b.readTo scope with
  | none => false
  | some q => decide (sequence ≤ q)

def isStale (b : MarkerBook σ) (v : Visibility) (u : Update) : Bool :=
  match b.mark? u.scope v with
  | none => false
  | some m => decide (u.sequence ≤ m.sequence)

def setMark (b : MarkerBook σ) (v : Visibility) (now : Nat) (u : Update) : MarkerBook σ :=
  { b with marks := b.marks.insert ⟨u.scope, v⟩ ⟨u.event, u.sequence, now⟩ }

def entryOf (v : Visibility) (now : Nat) (u : Update) : Entry :=
  ⟨⟨u.scope, v⟩, ⟨u.event, u.sequence, now⟩⟩

def settle (b : MarkerBook σ) (slot : Slot) : MarkerBook σ :=
  { b with unflushed := b.unflushed.erase slot }

def defer (b : MarkerBook σ) (slot : Slot) : MarkerBook σ :=
  { b with unflushed := b.unflushed.insert slot () }

def advance [Backing σ] (b : MarkerBook σ) (u : Update) (v : Visibility) (now : Nat) :
    MarkerBook σ × Advance :=
  if b.isStale v u then (b, .ignored)
  else
    let b := b.setMark v now u
    match Backing.store (entryOf v now u) b.storage with
    | (.ok (), s) => ({ b with storage := s }.settle ⟨u.scope, v⟩, .applied)
    | (.error why, s) => ({ b with storage := s }.defer ⟨u.scope, v⟩, .unsaved why)

def setAll (v : Visibility) (now : Nat) :
    List Update → MarkerBook σ → MarkerBook σ × List Update
  | [], b => (b, [])
  | u :: us, b =>
    if b.isStale v u then setAll v now us b
    else
      let (b, rest) := setAll v now us (b.setMark v now u)
      (b, u :: rest)

def advanceAll [Backing σ] (b : MarkerBook σ) (us : List Update) (v : Visibility) (now : Nat) :
    MarkerBook σ × List Update × Advance :=
  let (b, moved) := b.setAll v now us
  if moved.isEmpty then (b, [], .ignored)
  else
    match Backing.storeAll (moved.map (entryOf v now)) b.storage with
    | (.ok (), s) =>
      (moved.foldl (fun b u => b.settle ⟨u.scope, v⟩) { b with storage := s }, moved, .applied)
    | (.error why, s) =>
      (moved.foldl (fun b u => b.defer ⟨u.scope, v⟩) { b with storage := s }, moved,
        .unsaved why)

def flushSlots [Backing σ] :
    List Slot → MarkerBook σ → MarkerBook σ × Nat × Option StorageError
  | [], b => (b, 0, none)
  | slot :: slots, b =>
    match b.marks.get? slot with
    | none => flushSlots slots b
    | some m =>
      match Backing.store ⟨slot, m⟩ b.storage with
      | (.ok (), s) =>
        let (b, n, first) := flushSlots slots { b with storage := s }
        (b, n + 1, first)
      | (.error why, s) =>
        -- A slot that holds a later marker counts as written.
        if why.isRegression then
          let (b, n, first) := flushSlots slots { b with storage := s }
          (b, n + 1, first)
        else
          let (b, n, _) := flushSlots slots ({ b with storage := s }.defer slot)
          (b, n, some why)

def flush [Backing σ] (b : MarkerBook σ) : MarkerBook σ × Except StorageError Nat :=
  match flushSlots b.unflushed.keys { b with unflushed := .empty } with
  | (b, n, none) => (b, .ok n)
  | (b, _, some why) => (b, .error why)

def isUnflushed (b : MarkerBook σ) (scope : Scope) (v : Visibility) : Bool :=
  b.unflushed.contains ⟨scope, v⟩

def forget [Backing σ] (b : MarkerBook σ) (room : RoomId) :
    MarkerBook σ × Except StorageError Nat :=
  let (answer, s) := Backing.forget room b.storage
  ({ storage := s
     marks := b.marks.filter fun slot _ => slot.scope.room != room
     unflushed := b.unflushed.filter fun slot _ => slot.scope.room != room }, answer)

end MarkerBook

end ReadTracking
