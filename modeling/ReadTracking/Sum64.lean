/-!
# Sums of 64 bits

Dates, the ends of windows and the totals of a report are held in 64 bits.  A sum of them is
either exact or overflows, and what overflows stops whoever adds.
-/

set_option autoImplicit false

namespace ReadTracking.Sum64

def bound : Nat := 1 <<< 64

def fits (n : Nat) : Bool := decide (n < bound)

def add? (a b : Nat) : Option Nat := if fits (a + b) then some (a + b) else none

def overflow : String := "attempt to add with overflow"

theorem fits_iff {n : Nat} : fits n = true ↔ n < bound := decide_eq_true_iff

theorem add?_isSome {a b : Nat} : (add? a b).isSome = fits (a + b) := by
  unfold add?
  cases fits (a + b) <;> rfl

end ReadTracking.Sum64
