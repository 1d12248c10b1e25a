/-!
# Bytes in hexadecimal

Every byte is written as two hexadecimal digits, the higher one first.
-/

set_option autoImplicit false

namespace ReadTracking

def hexChar (n : Nat) : Char := if n < 10 then Char.ofNat (48 + n) else Char.ofNat (87 + n)

def hexValue (c : Char) : Nat :=
  if '0' ≤ c ∧ c ≤ '9' then c.toNat - 48
  else if 'a' ≤ c ∧ c ≤ 'f' then c.toNat - 87
  else if 'A' ≤ c ∧ c ≤ 'F' then c.toNat - 55
  else 0

def hexOfBytes (bytes : List UInt8) : String :=
  String.ofList (bytes.flatMap fun b => [hexChar (b.toNat / 16), hexChar (b.toNat % 16)])

def bytesOfDigits : List Char → List UInt8
  | high :: low :: rest =>
    UInt8.ofNat (16 * hexValue high + hexValue low) :: bytesOfDigits rest
  | _ => []

def bytesOfHex (text : String) : List UInt8 := bytesOfDigits text.toList

end ReadTracking
