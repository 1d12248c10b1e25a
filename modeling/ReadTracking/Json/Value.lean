import ReadTracking.Bytes.Hex
import ReadTracking.Fields

/-!
# JSON values

The values of the text format JSON as far as a reader of records needs them.  A whole number is
kept as a number and any other number as it is written.  A text with an escape that stands for
half of a surrogate pair is no text, and a record with such a name is no record; they can only be
passed over.
-/

set_option autoImplicit false

namespace ReadTracking.Json

inductive Value where
  | null
  | bool (b : Bool)
  | whole (n : Nat)
  | numeral (digits : List Char)
  | text (s : String)
  | broken
  | list (items : List Value)
  | record (fields : List (String × Value))
  deriving Inhabited

/-! ## Writing -/

def unitEscape (n : Nat) : List Char :=
  ['\\', 'u', hexChar (n / 4096 % 16), hexChar (n / 256 % 16), hexChar (n / 16 % 16),
    hexChar (n % 16)]

def writeChar (c : Char) : List Char :=
  if c = '"' then ['\\', '"']
  else if c = '\\' then ['\\', '\\']
  else if c = '\x08' then ['\\', 'b']
  else if c = '\x0c' then ['\\', 'f']
  else if c = '\n' then ['\\', 'n']
  else if c = '\r' then ['\\', 'r']
  else if c = '\t' then ['\\', 't']
  else if c.toNat < 32 then unitEscape c.toNat
  else [c]

def writeText (s : String) : List Char := '"' :: s.toList.flatMap writeChar ++ ['"']

mutual

def Value.write : Value → List Char
  | .null => "null".toList
  | .bool true => "true".toList
  | .bool false => "false".toList
  | .whole n => Nat.toDigits 10 n
  | .numeral digits => digits
  | .text s => writeText s
  | .broken => '"' :: unitEscape 0xD800 ++ ['"']
  | .list [] => ['[', ']']
  | .list (v :: vs) => '[' :: v.write ++ writeItems vs ++ [']']
  | .record [] => ['{', '}']
  | .record ((k, v) :: fs) => '{' :: writeText k ++ ':' :: v.write ++ writeFields fs ++ ['}']

def writeItems : List Value → List Char
  | [] => []
  | v :: vs => ',' :: v.write ++ writeItems vs

def writeFields : List (String × Value) → List Char
  | [] => []
  | (k, v) :: fs => ',' :: writeText k ++ ':' :: v.write ++ writeFields fs

end

def Value.toText (v : Value) : String := String.ofList v.write

end ReadTracking.Json
