import ReadTracking.Json.Value

/-!
# Reading JSON

A reader by recursive descent.  Every step answers with what it read and with the characters
that follow.  Recursion is bounded by fuel, of which the length of the text is enough.
-/

set_option autoImplicit false

namespace ReadTracking.Json

/-! ## Blanks and numbers -/

def isBlank (c : Char) : Bool := c = ' ' || c = '\n' || c = '\t' || c = '\r'

def skipBlanks (cs : List Char) : List Char := cs.dropWhile isBlank

def isDigit (c : Char) : Bool := '0' ≤ c && c ≤ '9'

def natOfDigits (cs : List Char) : Nat := cs.foldl (fun n c => n * 10 + (c.toNat - 48)) 0

def readDigits (cs : List Char) : Option (List Char × List Char) :=
  match cs.takeWhile isDigit with
  | [] => none
  | ds => some (ds, cs.dropWhile isDigit)

def readWhole : List Char → Option (List Char × List Char)
  | '0' :: rest => some (['0'], rest)
  | cs => readDigits cs

def readPlaces : List Char → Option (List Char × List Char)
  | '.' :: rest => (readDigits rest).map fun (ds, rest) => ('.' :: ds, rest)
  | cs => some ([], cs)

def readSign : List Char → List Char × List Char
  | '+' :: rest => (['+'], rest)
  | '-' :: rest => (['-'], rest)
  | cs => ([], cs)

def readExponent : List Char → Option (List Char × List Char)
  | c :: rest =>
    if c = 'e' ∨ c = 'E' then
      let (sign, rest) := readSign rest
      (readDigits rest).map fun (ds, rest) => (c :: sign ++ ds, rest)
    else some ([], c :: rest)
  | [] => some ([], [])

def readNumber (cs : List Char) : Option (Value × List Char) :=
  let (sign, cs) := match cs with
    | '-' :: rest => (['-'], rest)
    | cs => ([], cs)
  (readWhole cs).bind fun (ds, cs) =>
    (readPlaces cs).bind fun (places, cs) =>
      (readExponent cs).map fun (exponent, cs) =>
        if sign.isEmpty && places.isEmpty && exponent.isEmpty then (.whole (natOfDigits ds), cs)
        else (.numeral (sign ++ ds ++ places ++ exponent), cs)

/-! ## Texts -/

def hexValue? (c : Char) : Option Nat :=
  if '0' ≤ c ∧ c ≤ '9' then some (c.toNat - 48)
  else if 'a' ≤ c ∧ c ≤ 'f' then some (c.toNat - 87)
  else if 'A' ≤ c ∧ c ≤ 'F' then some (c.toNat - 55)
  else none

def shortEscape? (c : Char) : Option Char :=
  if c = '"' ∨ c = '\\' ∨ c = '/' then some c
  else if c = 'b' then some '\x08'
  else if c = 'f' then some '\x0c'
  else if c = 'n' then some '\n'
  else if c = 'r' then some '\r'
  else if c = 't' then some '\t'
  else none

def readUnits : List Char → Option (List Nat × List Char)
  | [] => none
  | '"' :: rest => some ([], rest)
  | '\\' :: 'u' :: a :: b :: c :: d :: rest =>
    match hexValue? a, hexValue? b, hexValue? c, hexValue? d with
    | some a, some b, some c, some d =>
      (readUnits rest).map fun (us, rest) =>
        ((((a * 16 + b) * 16 + c) * 16 + d) :: us, rest)
    | _, _, _, _ => none
  | '\\' :: c :: rest =>
    match shortEscape? c with
    | some e => (readUnits rest).map fun (us, rest) => (e.toNat :: us, rest)
    | none => none
  | c :: rest =>
    if c.toNat < 32 ∨ c = '\\' then none
    else (readUnits rest).map fun (us, rest) => (c.toNat :: us, rest)

def isHigh (n : Nat) : Bool := decide (0xD800 ≤ n ∧ n < 0xDC00)

def isLow (n : Nat) : Bool := decide (0xDC00 ≤ n ∧ n < 0xE000)

def charsOfUnits : List Nat → Option (List Char)
  | [] => some []
  | u :: us =>
    if isHigh u then
      match us with
      | v :: us =>
        if isLow v then
          (charsOfUnits us).map
            (Char.ofNat (0x10000 + (u - 0xD800) * 0x400 + (v - 0xDC00)) :: ·)
        else none
      | [] => none
    else if isLow u then none
    else (charsOfUnits us).map (Char.ofNat u :: ·)

def readText (cs : List Char) : Option (Value × List Char) :=
  (readUnits cs).map fun (us, rest) =>
    match charsOfUnits us with
    | some cs => (.text (String.ofList cs), rest)
    | none => (.broken, rest)

def readName (cs : List Char) : Option (Option String × List Char) :=
  match skipBlanks cs with
  | '"' :: rest =>
    (readUnits rest).bind fun (us, rest) =>
      match skipBlanks rest with
      | ':' :: rest => some ((charsOfUnits us).map String.ofList, rest)
      | _ => none
  | _ => none

def recordOf (fs : List (Option String × Value)) : Value :=
  match fs.mapM fun (k, v) => k.map (·, v) with
  | some fs => .record fs
  | none => .broken

/-! ## Values -/

def afterWord : List Char → List Char → Option (List Char)
  | [], cs => some cs
  | _ :: _, [] => none
  | w :: ws, c :: cs => if w = c then afterWord ws cs else none

def readWord (word : String) (v : Value) (cs : List Char) : Option (Value × List Char) :=
  (afterWord word.toList cs).map fun rest => (v, rest)

mutual

def readValue : (fuel : Nat) → List Char → Option (Value × List Char)
  | 0, _ => none
  | fuel + 1, cs =>
    match skipBlanks cs with
    | '"' :: rest => readText rest
    | '[' :: rest =>
      match skipBlanks rest with
      | ']' :: rest => some (.list [], rest)
      | rest =>
        (readValue fuel rest).bind fun (v, rest) =>
          (readItems fuel rest).map fun (vs, rest) => (.list (v :: vs), rest)
    | '{' :: rest =>
      match skipBlanks rest with
      | '}' :: rest => some (.record [], rest)
      | rest =>
        (readName rest).bind fun (k, rest) =>
          (readValue fuel rest).bind fun (v, rest) =>
            (readFields fuel rest).map fun (fs, rest) => (recordOf ((k, v) :: fs), rest)
    | 'n' :: rest => readWord "ull" .null rest
    | 't' :: rest => readWord "rue" (.bool true) rest
    | 'f' :: rest => readWord "alse" (.bool false) rest
    | cs => readNumber cs

def readItems : (fuel : Nat) → List Char → Option (List Value × List Char)
  | 0, _ => none
  | fuel + 1, cs =>
    match skipBlanks cs with
    | ']' :: rest => some ([], rest)
    | ',' :: rest =>
      (readValue fuel rest).bind fun (v, rest) =>
        (readItems fuel rest).map fun (vs, rest) => (v :: vs, rest)
    | _ => none

def readFields : (fuel : Nat) → List Char →
    Option (List (Option String × Value) × List Char)
  | 0, _ => none
  | fuel + 1, cs =>
    match skipBlanks cs with
    | '}' :: rest => some ([], rest)
    | ',' :: rest =>
      (readName rest).bind fun (k, rest) =>
        (readValue fuel rest).bind fun (v, rest) =>
          (readFields fuel rest).map fun (fs, rest) => ((k, v) :: fs, rest)
    | _ => none

end

def readChars (cs : List Char) : Option Value :=
  match readValue (cs.length + 1) cs with
  | some (v, rest) => if (skipBlanks rest).isEmpty then some v else none
  | none => none

def Value.ofText? (s : String) : Option Value := readChars s.toList

end ReadTracking.Json
