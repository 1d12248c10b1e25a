import ReadTracking.Backing

/-!
# A storage on rations

A rationed storage has a budget of calls.  Every call costs one; a call without budget fails and
does nothing.  It stores a batch marker by marker, so a batch can stop in the middle.
-/

set_option autoImplicit false

namespace ReadTracking

structure Rationed (σ : Type) where
  inner : σ
  budget : Option Nat
  failures : Nat
  deriving DecidableEq, Inhabited

namespace Rationed

variable {σ : Type}

def around (inner : σ) : Rationed σ := ⟨inner, none, 0⟩

def call {α : Type} (act : σ → Called α σ) (r : Rationed σ) : Called α (Rationed σ) :=
  match r.budget with
  | some 0 =>
    let n := r.failures + 1
    (.error (.io ("disk unavailable #" ++ toString n)), { r with failures := n })
  | some (n + 1) =>
    let (answer, inner) := act r.inner
    (answer, { r with inner, budget := some n })
  | none =>
    let (answer, inner) := act r.inner
    (answer, { r with inner })

instance [Backing σ] : Backing (Rationed σ) where
  store e := call (Backing.store e)
  storeAll := storeEach fun e => call (Backing.store e)
  load slot := call (Backing.load slot)
  loadRoom room := call (Backing.loadRoom room)
  list := call Backing.list
  forget room := call (Backing.forget room)

end Rationed

end ReadTracking
