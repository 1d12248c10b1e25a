import ReadTracking.Marker

/-!
# What a marker storage does

A storage keeps at most one marker for a slot and never lets it move back.  Every call may fail,
and every call may leave the storage in another state, whether it fails or not: a storage that
injects failures counts its calls.  `Backing` is the interface; the tracker is written against
it alone.
-/

set_option autoImplicit false

namespace ReadTracking

inductive StorageError where
  | regression (stored attempted : Nat)
  | serialization (text : String)
  | io (text : String)
  deriving DecidableEq, Repr, Inhabited

def StorageError.message : StorageError → String
  | .regression stored attempted =>
    "marker regression: stored sequence " ++ toString stored ++ ", attempted " ++
      toString attempted
  | .serialization text => "serialization error: " ++ text
  | .io text => "I/O error: " ++ text

def StorageError.isRegression : StorageError → Bool
  | .regression _ _ => true
  | _ => false

abbrev Called (α σ : Type) : Type := Except StorageError α × σ

class Backing (σ : Type) where
  store : Entry → σ → Called Unit σ
  storeAll : List Entry → σ → Called Unit σ
  load : Slot → σ → Called (Option Entry) σ
  loadRoom : RoomId → σ → Called (List Entry) σ
  list : σ → Called (List Entry) σ
  forget : RoomId → σ → Called Nat σ

def storeEach {σ : Type} (store : Entry → σ → Called Unit σ) : List Entry → σ → Called Unit σ
  | [], s => (.ok (), s)
  | e :: es, s =>
    match store e s with
    | (.ok (), s) => storeEach store es s
    | (.error why, s) => (.error why, s)

end ReadTracking
