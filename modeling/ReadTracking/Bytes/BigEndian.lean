/-!
# Numbers as bytes

Numbers written with the most significant byte first, in a fixed width.
-/

set_option autoImplicit false

namespace ReadTracking

def natBigEndian (bytes : List UInt8) : Nat := bytes.foldl (fun n b => n * 256 + b.toNat) 0

def bytesBigEndian : (width : Nat) → Nat → List UInt8
  | 0, _ => []
  | w + 1, n => bytesBigEndian w (n / 256) ++ [n.toUInt8]

@[simp] theorem length_bytesBigEndian (width n : Nat) :
    (bytesBigEndian width n).length = width := by
  induction width generalizing n with
  | zero => rfl
  | succ w ih => simp [bytesBigEndian, ih]

theorem natBigEndian_append_singleton (bytes : List UInt8) (b : UInt8) :
    natBigEndian (bytes ++ [b]) = natBigEndian bytes * 256 + b.toNat := by
  simp [natBigEndian]

theorem natBigEndian_bytesBigEndian (width n : Nat) :
    natBigEndian (bytesBigEndian width n) = n % Nat.pow 256 width := by
  induction width generalizing n with
  | zero => simp [bytesBigEndian, natBigEndian, Nat.mod_one]
  | succ w ih =>
    have step : Nat.pow 256 (w + 1) = 256 * Nat.pow 256 w := Nat.mul_comm _ _
    rw [bytesBigEndian, natBigEndian_append_singleton, ih, step, Nat.mod_mul]
    have h : n.toUInt8.toNat = n % 256 := by simp
    omega

end ReadTracking
