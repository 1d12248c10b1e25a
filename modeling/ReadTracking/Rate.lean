/-!
# Failure rates

A rate is a number with 53 binary digits, as it is read from a decimal.  Drawing an event at a
rate needs the rate as a whole number of 2^64-ths; a rate that is out of range is named in the
fewest decimal digits that read back as the same number.
-/

set_option autoImplicit false

namespace ReadTracking

/-- The number `mantissa * 2^exponent`, or its negative. -/
structure Rate where
  negative : Bool
  mantissa : Nat
  exponent : Int
  deriving DecidableEq, Repr, Inhabited

namespace Rate

def roundDiv (num den : Nat) : Nat :=
  let q := num / den
  let r := num % den
  if den < 2 * r ∨ (2 * r = den ∧ q % 2 = 1) then q + 1 else q

def scaled (num den : Nat) : Int → Nat × Nat
  | .ofNat e => (num <<< e, den)
  | .negSucc e => (num, den <<< (e + 1))

def ofFraction (negative : Bool) (num den : Nat) : Rate :=
  if num = 0 then ⟨negative, 0, 0⟩
  else
    let guess : Int := (Nat.log2 num : Int) - Nat.log2 den - 52
    let top := scaled num den (-guess)
    let exponent := max (if top.1 / top.2 < 1 <<< 52 then guess - 1 else guess) (-1074)
    let (n, d) := scaled num den (-exponent)
    let m := roundDiv n d
    if m = 1 <<< 53 then ⟨negative, 1 <<< 52, exponent + 1⟩ else ⟨negative, m, exponent⟩

def tenTo (exponent : Nat) : Nat := Nat.pow 10 exponent

def ofDecimal (negative : Bool) (digits places : Nat) : Rate :=
  ofFraction negative digits (tenTo places)

def fraction (r : Rate) : Nat × Nat := scaled r.mantissa 1 r.exponent

def inRange (r : Rate) : Bool :=
  let (n, d) := r.fraction
  decide (n = 0) || (!r.negative && decide (n ≤ d))

def odds (r : Rate) : Nat :=
  let (n, d) := r.fraction
  (n <<< 64) / d

/-! ## Text -/

structure Grid where
  zeros : Nat
  places : Nat
  deriving DecidableEq, Repr, Inhabited

def grids : List Grid :=
  (List.range 309).map (fun k => ⟨308 - k, 0⟩) ++ (List.range 1100).map fun k => ⟨0, k + 1⟩

/-- The digits on a grid that read back as the rate, the nearer ones of two; of two that are as
near, those farther from zero. -/
def readsBack? (r : Rate) (g : Grid) : Option Nat :=
  let n := r.fraction.1 * tenTo g.places
  let d := r.fraction.2 * tenTo g.zeros
  let below := n / d
  let above := below + 1
  let same := fun digits => ofDecimal r.negative (digits * tenTo g.zeros) g.places == r
  let nearer := if 2 * (n % d) < d then below else above
  if same nearer then some nearer
  else if same below then some below
  else if same above then some above
  else none

def positional (g : Grid) (digits : Nat) : String :=
  let whole := toString (digits / tenTo g.places) ++ "".pushn '0' g.zeros
  if g.places = 0 then whole
  else
    let part := toString (digits % tenTo g.places)
    whole ++ "." ++ "".pushn '0' (g.places - part.length) ++ part

def text (r : Rate) : String :=
  let decimal :=
    if r.mantissa = 0 then "0"
    else (grids.findSome? fun g => (r.readsBack? g).map (positional g)).getD ""
  (if r.negative then "-" else "") ++ decimal

end Rate

end ReadTracking
