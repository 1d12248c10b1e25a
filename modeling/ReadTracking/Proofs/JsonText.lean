import ReadTracking.Json.Reader

/-!
# JSON texts are read back

A text in quotes gives back its characters, whatever they are, and a number in digits gives back
the number.  So a value that can stand in a text is read back from the text that it is written
as, by induction over the value.
-/

set_option autoImplicit false

namespace ReadTracking.Json

variable {v : Value} {cs rest ds : List Char} {c : Char} {fuel : Nat}

/-! ## Characters inside quotes -/

theorem hexValue?_hexChar {n : Nat} (h : n < 16) : hexValue? (hexChar n) = some n := by
  have hall : ∀ n, n < 16 → hexValue? (hexChar n) = some n := by decide
  exact hall n h

theorem readUnits_unitEscape {n : Nat} (h : n < 65536) (rest : List Char) :
    readUnits (unitEscape n ++ rest) =
      (readUnits rest).map fun (us, rest) => (n :: us, rest) := by
  have hdigits : ((n / 4096 % 16 * 16 + n / 256 % 16) * 16 + n / 16 % 16) * 16 + n % 16 = n := by
    omega
  have hdigit : ∀ m, hexValue? (hexChar (m % 16)) = some (m % 16) := fun m =>
    hexValue?_hexChar (Nat.mod_lt m (by decide))
  simp only [unitEscape, List.cons_append, List.nil_append, readUnits, hdigit, hdigits]

theorem readUnits_plain (hquote : c ≠ '"') (hslash : c ≠ '\\') (hcontrol : ¬ c.toNat < 32)
    (rest : List Char) :
    readUnits (c :: rest) = (readUnits rest).map fun (us, rest) => (c.toNat :: us, rest) := by
  have hplain : ¬ (c.toNat < 32 ∨ c = '\\') := not_or.2 ⟨hcontrol, hslash⟩
  rw [readUnits, if_neg hplain]
  · exact hquote
  · intro a b c d rest h
    exact absurd h hslash
  · intro c rest h
    exact absurd h hslash

theorem readUnits_writeChar (c : Char) (rest : List Char) :
    readUnits (writeChar c ++ rest) =
      (readUnits rest).map fun (us, rest) => (c.toNat :: us, rest) := by
  unfold writeChar
  repeat' split
  -- The quote, the backslash and five control characters have escapes of their own.
  iterate 7
    next h =>
      subst h
      rfl
  next h => exact readUnits_unitEscape (by omega) rest
  next hquote hslash _ _ _ _ _ hcontrol => exact readUnits_plain hquote hslash hcontrol rest

theorem readUnits_write (cs rest : List Char) :
    readUnits (cs.flatMap writeChar ++ '"' :: rest) = some (cs.map Char.toNat, rest) := by
  induction cs with
  | nil => rfl
  | cons c cs ih =>
    rw [List.flatMap_cons, List.append_assoc, readUnits_writeChar, ih, Option.map_some,
      List.map_cons]

theorem not_surrogate (c : Char) : isHigh c.toNat = false ∧ isLow c.toNat = false := by
  have hvalid : c.toNat < 0xD800 ∨ 0xDFFF < c.toNat ∧ c.toNat < 0x110000 := c.valid
  simp only [isHigh, isLow, decide_eq_false_iff_not]
  omega

theorem charsOfUnits_map (cs : List Char) : charsOfUnits (cs.map Char.toNat) = some cs := by
  induction cs with
  | nil => rfl
  | cons c cs ih =>
    obtain ⟨hhigh, hlow⟩ := not_surrogate c
    rw [List.map_cons, charsOfUnits.eq_def]
    simp only [hhigh, hlow, Bool.false_eq_true, if_false, ih, Option.map_some, Char.ofNat_toNat]

theorem readText_write (s : String) (rest : List Char) :
    readText (s.toList.flatMap writeChar ++ '"' :: rest) = some (.text s, rest) := by
  simp only [readText, readUnits_write, Option.map_some, charsOfUnits_map, String.ofList_toList]

theorem readName_write (name : String) (rest : List Char) :
    readName (writeText name ++ ':' :: rest) = some (some name, rest) := by
  have hquoted : writeText name ++ ':' :: rest =
      '"' :: (name.toList.flatMap writeChar ++ '"' :: ':' :: rest) := by
    simp only [writeText, List.cons_append, List.append_assoc, List.nil_append]
  have hfirst : skipBlanks ('"' :: (name.toList.flatMap writeChar ++ '"' :: ':' :: rest)) =
      '"' :: (name.toList.flatMap writeChar ++ '"' :: ':' :: rest) := rfl
  have hcolon : skipBlanks (':' :: rest) = ':' :: rest := rfl
  simp only [readName, hquoted, hfirst, readUnits_write, Option.bind_some, hcolon,
    charsOfUnits_map, Option.map_some, String.ofList_toList]

/-! ## Numbers -/

def IsDigits (ds : List Char) : Prop := ds ≠ [] ∧ ∀ c ∈ ds, isDigit c = true

def IsWhole (ds : List Char) : Prop := IsDigits ds ∧ (ds.head? = some '0' → ds = ['0'])

inductive IsPlaces : List Char → Prop where
  | nil : IsPlaces []
  | point {ds : List Char} : IsDigits ds → IsPlaces ('.' :: ds)

inductive IsExponent : List Char → Prop where
  | nil : IsExponent []
  | mk {c : Char} {sign ds : List Char} : c = 'e' ∨ c = 'E' →
      sign = [] ∨ sign = ['+'] ∨ sign = ['-'] → IsDigits ds → IsExponent (c :: sign ++ ds)

inductive Numeral : List Char → Prop where
  | mk {sign ds places exponent : List Char} : sign = [] ∨ sign = ['-'] → IsWhole ds →
      IsPlaces places → IsExponent exponent → sign ++ places ++ exponent ≠ [] →
      Numeral (sign ++ ds ++ places ++ exponent)

def NoDigit (rest : List Char) : Prop := ∀ c, rest.head? = some c → isDigit c = false

def Ends (rest : List Char) : Prop :=
  ∀ c, rest.head? = some c → c = ',' ∨ c = ']' ∨ c = '}'

theorem ends_cons (h : c = ',' ∨ c = ']' ∨ c = '}') (rest : List Char) : Ends (c :: rest) := by
  intro d hd
  cases hd
  exact h

theorem Ends.noDigit (h : Ends rest) : NoDigit rest := by
  intro c hc
  rcases h c hc with rfl | rfl | rfl <;> rfl

theorem readDigits_append (h : IsDigits ds) (hrest : NoDigit rest) :
    readDigits (ds ++ rest) = some (ds, rest) := by
  have htake : rest.takeWhile isDigit = [] := by
    cases rest with
    | nil => rfl
    | cons c rest => exact List.takeWhile_cons_of_neg (by rw [hrest c rfl]; decide)
  have hdrop : rest.dropWhile isDigit = rest := by
    cases rest with
    | nil => rfl
    | cons c rest => exact List.dropWhile_cons_of_neg (by rw [hrest c rfl]; decide)
  rw [readDigits, List.takeWhile_append_of_pos h.2, List.dropWhile_append_of_pos h.2, htake,
    hdrop, List.append_nil]
  obtain ⟨hne, -⟩ := h
  cases ds with
  | nil => exact absurd rfl hne
  | cons d ds => rfl

theorem readWhole_append (h : IsWhole ds) (hrest : NoDigit rest) :
    readWhole (ds ++ rest) = some (ds, rest) := by
  obtain ⟨hdigits, hzero⟩ := h
  by_cases hhead : ds.head? = some '0'
  · rw [hzero hhead]
    rfl
  · rw [readWhole]
    · exact readDigits_append hdigits hrest
    · intro tail htail
      cases ds with
      | nil => exact hdigits.1 rfl
      | cons d ds =>
        cases htail
        exact hhead rfl

theorem readPlaces_append {places : List Char} (h : IsPlaces places) (hrest : NoDigit rest)
    (hpoint : rest.head? ≠ some '.') : readPlaces (places ++ rest) = some (places, rest) := by
  cases h with
  | nil =>
    rw [List.nil_append, readPlaces]
    intro tail htail
    rw [htail] at hpoint
    exact hpoint rfl
  | point hdigits =>
    rw [List.cons_append, readPlaces, readDigits_append hdigits hrest]
    rfl

theorem readSign_append {sign : List Char} (h : sign = [] ∨ sign = ['+'] ∨ sign = ['-'])
    (hdigits : IsDigits ds) (rest : List Char) :
    readSign (sign ++ (ds ++ rest)) = (sign, ds ++ rest) := by
  rcases h with rfl | rfl | rfl
  · rw [List.nil_append, readSign]
    all_goals
      intro tail htail
      cases ds with
      | nil => exact hdigits.1 rfl
      | cons d ds =>
        cases htail
        exact absurd (hdigits.2 _ List.mem_cons_self) (by decide)
  · rfl
  · rfl

theorem readExponent_append {exponent : List Char} (h : IsExponent exponent) (hrest : Ends rest) :
    readExponent (exponent ++ rest) = some (exponent, rest) := by
  cases h with
  | nil =>
    cases rest with
    | nil => rfl
    | cons c rest =>
      have hletter : ¬ (c = 'e' ∨ c = 'E') := by
        rcases hrest c rfl with rfl | rfl | rfl <;> decide
      rw [List.nil_append, readExponent, if_neg hletter]
  | mk hletter hsign hdigits =>
    rw [List.append_assoc, List.cons_append, readExponent, if_pos hletter,
      readSign_append hsign hdigits]
    simp only [readDigits_append hdigits hrest.noDigit, Option.map_some, List.cons_append]

theorem noDigit_exponent {exponent : List Char} (h : IsExponent exponent) (hrest : Ends rest) :
    NoDigit (exponent ++ rest) ∧ (exponent ++ rest).head? ≠ some '.' := by
  cases h with
  | nil =>
    refine ⟨hrest.noDigit, ?_⟩
    intro hpoint
    exact absurd (hrest '.' hpoint) (by decide)
  | mk hletter =>
    constructor
    · intro d hd
      cases hd
      rcases hletter with rfl | rfl <;> rfl
    · intro hpoint
      cases hpoint
      exact absurd hletter (by decide)

theorem noDigit_places {places : List Char} (h : IsPlaces places) (hrest : NoDigit rest) :
    NoDigit (places ++ rest) := by
  cases h with
  | nil => exact hrest
  | point =>
    intro d hd
    cases hd
    rfl

theorem head_ne_minus (h : IsDigits ds) (rest tail : List Char) : ds ++ rest ≠ '-' :: tail := by
  intro heq
  cases ds with
  | nil => exact h.1 rfl
  | cons d ds =>
    cases heq
    exact absurd (h.2 _ List.mem_cons_self) (by decide)

theorem readNumber_append {sign places exponent : List Char} (hsign : sign = [] ∨ sign = ['-'])
    (hwhole : IsWhole ds) (hplaces : IsPlaces places) (hexponent : IsExponent exponent)
    (hrest : Ends rest) :
    readNumber (sign ++ ds ++ places ++ exponent ++ rest) =
      some (if sign.isEmpty && places.isEmpty && exponent.isEmpty then
        (.whole (natOfDigits ds), rest)
        else (.numeral (sign ++ ds ++ places ++ exponent), rest)) := by
  obtain ⟨hdigit, hpoint⟩ := noDigit_exponent hexponent hrest
  have hds : readWhole (ds ++ (places ++ (exponent ++ rest))) =
      some (ds, places ++ (exponent ++ rest)) :=
    readWhole_append hwhole (noDigit_places hplaces hdigit)
  simp only [List.append_assoc]
  rcases hsign with rfl | rfl
  · rw [List.nil_append, readNumber]
    · simp only [hds, Option.bind_some, readPlaces_append hplaces hdigit hpoint,
        readExponent_append hexponent hrest, Option.map_some, List.nil_append, List.append_assoc]
    · exact head_ne_minus hwhole.1 _
  · rw [List.singleton_append, readNumber]
    simp only [hds, Option.bind_some, readPlaces_append hplaces hdigit hpoint,
      readExponent_append hexponent hrest, Option.map_some, List.append_assoc]

theorem Numeral.read {digits : List Char} (h : Numeral digits) (hrest : Ends rest) :
    readNumber (digits ++ rest) = some (.numeral digits, rest) := by
  cases h with
  | @mk sign ds places exponent hsign hwhole hplaces hexponent hother =>
    have hempty : (sign.isEmpty && places.isEmpty && exponent.isEmpty) = false := by
      rw [Bool.eq_false_iff]
      intro hall
      simp only [Bool.and_eq_true, List.isEmpty_iff] at hall
      obtain ⟨⟨rfl, rfl⟩, rfl⟩ := hall
      exact hother rfl
    rw [readNumber_append hsign hwhole hplaces hexponent hrest, if_neg]
    rw [hempty]
    decide

/-! ### Numbers written in digits -/

theorem isDigit_of_mem_toDigits {n : Nat} (h : c ∈ Nat.toDigits 10 n) : isDigit c = true :=
  Nat.isDigit_of_mem_toDigits (by decide) (by decide) h

theorem head?_toDigits {n : Nat} (h : 0 < n) : (Nat.toDigits 10 n).head? ≠ some '0' := by
  induction n using Nat.strongRecOn with
  | ind n ih =>
    by_cases hsmall : n < 10
    · have hall : ∀ n, n < 10 → 0 < n → (Nat.toDigits 10 n).head? ≠ some '0' := by decide
      exact hall n hsmall h
    · have hfirst := ih (n / 10) (by omega) (by omega)
      obtain ⟨d, ds, hds⟩ := List.exists_cons_of_ne_nil (@Nat.toDigits_ne_nil (n / 10) 10)
      rw [hds] at hfirst
      rw [Nat.toDigits_of_base_le (by decide) (by omega), hds]
      exact hfirst

theorem isWhole_toDigits (n : Nat) : IsWhole (Nat.toDigits 10 n) := by
  refine ⟨⟨Nat.toDigits_ne_nil, fun c => isDigit_of_mem_toDigits⟩, ?_⟩
  intro hzero
  by_cases h : 0 < n
  · exact absurd hzero (head?_toDigits h)
  · obtain rfl : n = 0 := by omega
    exact Nat.toDigits_zero 10

theorem natOfDigits_toDigits (n : Nat) : natOfDigits (Nat.toDigits 10 n) = n := by
  have hstep : (fun n c => n * 10 + (Char.toNat c - 48)) =
      fun n c => 10 * n + (Char.toNat c - '0'.toNat) := by
    funext n c
    rw [Nat.mul_comm]
    rfl
  rw [natOfDigits, hstep]
  exact Nat.ofDigitChars_ten_toDigits

theorem readNumber_toDigits (n : Nat) (hrest : Ends rest) :
    readNumber (Nat.toDigits 10 n ++ rest) = some (.whole n, rest) := by
  have h := readNumber_append (.inl rfl) (isWhole_toDigits n) .nil .nil hrest
  simp only [List.nil_append, List.append_nil] at h
  rw [h, natOfDigits_toDigits]
  rfl

/-! ## Values -/

inductive Value.Legible : Value → Prop where
  | null : Legible .null
  | bool (b : Bool) : Legible (.bool b)
  | whole (n : Nat) : Legible (.whole n)
  | numeral {digits : List Char} : Numeral digits → Legible (.numeral digits)
  | text (s : String) : Legible (.text s)
  | broken : Legible .broken
  | list {vs : List Value} : (∀ v ∈ vs, v.Legible) → Legible (.list vs)
  | record {fs : List (String × Value)} : (∀ f ∈ fs, f.2.Legible) → Legible (.record fs)

def BeginsNumber (c : Char) : Prop := isDigit c = true ∨ c = '-'

theorem BeginsNumber.ne {d : Char} (h : BeginsNumber c) (hdigit : isDigit d = false)
    (hminus : d ≠ '-') : c ≠ d := by
  rintro rfl
  rcases h with h | h
  · rw [h] at hdigit
    cases hdigit
  · exact hminus h

theorem BeginsNumber.isBlank_eq (h : BeginsNumber c) : isBlank c = false := by
  have hspace := h.ne (d := ' ') rfl (by decide)
  have hline := h.ne (d := '\n') rfl (by decide)
  have htab := h.ne (d := '\t') rfl (by decide)
  have hreturn := h.ne (d := '\r') rfl (by decide)
  simp only [isBlank, hspace, hline, htab, hreturn, decide_false, Bool.or_false]

theorem IsWhole.begins (h : IsWhole ds) : ∃ c tail, ds = c :: tail ∧ BeginsNumber c := by
  obtain ⟨d, tail, rfl⟩ := List.exists_cons_of_ne_nil h.1.1
  exact ⟨d, tail, rfl, .inl (h.1.2 d List.mem_cons_self)⟩

theorem Numeral.begins {digits : List Char} (h : Numeral digits) :
    ∃ c tail, digits = c :: tail ∧ BeginsNumber c := by
  cases h with
  | @mk sign ds places exponent hsign hwhole =>
    rcases hsign with rfl | rfl
    · obtain ⟨d, tail, rfl, hd⟩ := hwhole.begins
      exact ⟨d, tail ++ places ++ exponent, rfl, hd⟩
    · exact ⟨'-', ds ++ places ++ exponent, rfl, .inr rfl⟩

def Opens (cs : List Char) : Prop := ∃ c tail, cs = c :: tail ∧ isBlank c = false ∧ c ≠ ']'

theorem opens_number (h : ∃ c tail, cs = c :: tail ∧ BeginsNumber c) : Opens cs := by
  obtain ⟨c, tail, hcs, hc⟩ := h
  exact ⟨c, tail, hcs, hc.isBlank_eq, hc.ne rfl (by decide)⟩

theorem Value.Legible.opens (h : v.Legible) : Opens v.write := by
  cases h with
  | null => exact ⟨'n', _, rfl, rfl, by decide⟩
  | bool b =>
    cases b with
    | true => exact ⟨'t', _, rfl, rfl, by decide⟩
    | false => exact ⟨'f', _, rfl, rfl, by decide⟩
  | whole n => exact opens_number (isWhole_toDigits n).begins
  | numeral h => exact opens_number h.begins
  | text s => exact ⟨'"', _, rfl, rfl, by decide⟩
  | broken => exact ⟨'"', _, rfl, rfl, by decide⟩
  | @list vs =>
    cases vs with
    | nil => exact ⟨'[', _, rfl, rfl, by decide⟩
    | cons v vs => exact ⟨'[', _, rfl, rfl, by decide⟩
  | @record fs =>
    cases fs with
    | nil => exact ⟨'{', _, rfl, rfl, by decide⟩
    | cons f fs => exact ⟨'{', _, rfl, rfl, by decide⟩

theorem readValue_number (h : ∃ c tail, cs = c :: tail ∧ BeginsNumber c) (rest : List Char) :
    readValue (fuel + 1) (cs ++ rest) = readNumber (cs ++ rest) := by
  obtain ⟨c, tail, rfl, hc⟩ := h
  have hskip : skipBlanks (c :: (tail ++ rest)) = c :: (tail ++ rest) :=
    List.dropWhile_cons_of_neg (by rw [hc.isBlank_eq]; decide)
  rw [List.cons_append, readValue, hskip]
  -- None of the characters that the reader looks for begins a number.
  split
  iterate 6
    next heq =>
      cases heq
      exact absurd rfl (hc.ne rfl (by decide))
  next => rfl

def Reads (v : Value) : Prop :=
  ∀ fuel rest, v.write.length < fuel → Ends rest →
    readValue fuel (v.write ++ rest) = some (v, rest)

theorem reads_of_succ (h : ∀ fuel rest, v.write.length ≤ fuel → Ends rest →
    readValue (fuel + 1) (v.write ++ rest) = some (v, rest)) : Reads v := by
  intro fuel rest hfuel hrest
  cases fuel with
  | zero => cases hfuel
  | succ fuel => exact h fuel rest (Nat.le_of_lt_succ hfuel) hrest

theorem ends_items (vs : List Value) (rest : List Char) :
    Ends (writeItems vs ++ ']' :: rest) := by
  cases vs with
  | nil => exact ends_cons (.inr (.inl rfl)) _
  | cons v vs => exact ends_cons (.inl rfl) _

theorem ends_fields (fs : List (String × Value)) (rest : List Char) :
    Ends (writeFields fs ++ '}' :: rest) := by
  cases fs with
  | nil => exact ends_cons (.inr (.inr rfl)) _
  | cons f fs => exact ends_cons (.inl rfl) _

theorem readItems_write {vs : List Value} (h : ∀ v ∈ vs, Reads v)
    (hfuel : (writeItems vs).length < fuel) (rest : List Char) :
    readItems fuel (writeItems vs ++ ']' :: rest) = some (vs, rest) := by
  induction vs generalizing fuel with
  | nil =>
    cases fuel with
    | zero => cases hfuel
    | succ fuel => rfl
  | cons v vs ih =>
    cases fuel with
    | zero => cases hfuel
    | succ fuel =>
      simp only [writeItems, List.cons_append, List.length_cons, List.length_append] at hfuel
      have hv := h v List.mem_cons_self fuel _ (by omega) (ends_items vs rest)
      have hvs : readItems fuel (writeItems vs ++ ']' :: rest) = some (vs, rest) :=
        ih (fun w hw => h w (List.mem_cons_of_mem _ hw)) (by omega)
      have hcomma : skipBlanks (',' :: (v.write ++ (writeItems vs ++ ']' :: rest))) =
          ',' :: (v.write ++ (writeItems vs ++ ']' :: rest)) := rfl
      rw [writeItems, List.cons_append, List.cons_append, List.append_assoc, readItems, hcomma]
      simp only [hv, Option.bind_some, hvs, Option.map_some]

theorem readFields_write {fs : List (String × Value)} (h : ∀ f ∈ fs, Reads f.2)
    (hfuel : (writeFields fs).length < fuel) (rest : List Char) :
    readFields fuel (writeFields fs ++ '}' :: rest) =
      some (fs.map fun f => (some f.1, f.2), rest) := by
  induction fs generalizing fuel with
  | nil =>
    cases fuel with
    | zero => cases hfuel
    | succ fuel => rfl
  | cons f fs ih =>
    obtain ⟨k, v⟩ := f
    cases fuel with
    | zero => cases hfuel
    | succ fuel =>
      simp only [writeFields, List.cons_append, List.length_cons, List.length_append] at hfuel
      have hread : Reads v := h (k, v) List.mem_cons_self
      have hv := hread fuel _ (by omega) (ends_fields fs rest)
      have hfs : readFields fuel (writeFields fs ++ '}' :: rest) =
          some (fs.map fun f => (some f.1, f.2), rest) :=
        ih (fun f hf => h f (List.mem_cons_of_mem _ hf)) (by omega)
      have hname := readName_write k (v.write ++ (writeFields fs ++ '}' :: rest))
      have hcomma : ∀ cs, skipBlanks (',' :: cs) = ',' :: cs := fun cs => rfl
      simp only [writeFields, List.cons_append, List.append_assoc, readFields, hcomma]
      simp only [hname, hv, Option.bind_some, hfs, Option.map_some, List.map_cons]

theorem recordOf_named (fs : List (String × Value)) :
    recordOf (fs.map fun f => (some f.1, f.2)) = .record fs := by
  have hnames : ((fs.map fun f => (some f.1, f.2)).mapM
      fun (f : Option String × Value) => f.1.map fun k => (k, f.2)) = some fs := by
    induction fs with
    | nil => rfl
    | cons f fs ih =>
      rw [List.map_cons, List.mapM_cons, ih]
      rfl
  rw [recordOf, hnames]

theorem reads_list {vs : List Value} (h : ∀ v ∈ vs, Reads v) (hopens : ∀ v ∈ vs, Opens v.write) :
    Reads (.list vs) := by
  apply reads_of_succ
  intro fuel rest hfuel hrest
  cases vs with
  | nil => rfl
  | cons v vs =>
    simp only [Value.write, List.cons_append, List.length_cons, List.length_append] at hfuel
    have hv := h v List.mem_cons_self fuel _ (by omega) (ends_items vs rest)
    have hvs : readItems fuel (writeItems vs ++ ']' :: rest) = some (vs, rest) :=
      readItems_write (fun w hw => h w (List.mem_cons_of_mem _ hw)) (by omega) rest
    obtain ⟨c, tail, hc, hblank, hclose⟩ := hopens v List.mem_cons_self
    have hbracket : ∀ cs, skipBlanks ('[' :: cs) = '[' :: cs := fun cs => rfl
    have hskip : ∀ cs, skipBlanks (v.write ++ cs) = v.write ++ cs := by
      intro cs
      rw [hc]
      exact List.dropWhile_cons_of_neg (by rw [hblank]; decide)
    simp only [Value.write, List.cons_append, List.append_assoc, List.nil_append, readValue,
      hbracket, hskip]
    split
    next heq =>
      rw [hc] at heq
      cases heq
      exact absurd rfl hclose
    next => simp only [hv, Option.bind_some, hvs, Option.map_some]

theorem reads_record {fs : List (String × Value)} (h : ∀ f ∈ fs, Reads f.2) :
    Reads (.record fs) := by
  apply reads_of_succ
  intro fuel rest hfuel hrest
  cases fs with
  | nil => rfl
  | cons f fs =>
    obtain ⟨k, v⟩ := f
    simp only [Value.write, List.cons_append, List.length_cons, List.length_append] at hfuel
    have hread : Reads v := h (k, v) List.mem_cons_self
    have hv := hread fuel _ (by omega) (ends_fields fs rest)
    have hfs : readFields fuel (writeFields fs ++ '}' :: rest) =
        some (fs.map fun f => (some f.1, f.2), rest) :=
      readFields_write (fun f hf => h f (List.mem_cons_of_mem _ hf)) (by omega) rest
    have hname := readName_write k (v.write ++ (writeFields fs ++ '}' :: rest))
    have hrecord : recordOf ((some k, v) :: fs.map fun f => (some f.1, f.2)) =
        .record ((k, v) :: fs) := recordOf_named ((k, v) :: fs)
    have hbrace : ∀ cs, skipBlanks ('{' :: cs) = '{' :: cs := fun cs => rfl
    have hquote : ∀ cs, skipBlanks (writeText k ++ cs) = writeText k ++ cs := fun cs => rfl
    simp only [Value.write, List.cons_append, List.append_assoc, List.nil_append, readValue,
      hbrace, hquote]
    split
    next heq => cases heq
    next => simp only [hname, hv, Option.bind_some, hfs, Option.map_some, hrecord]

/-- A value that a text can hold is read back. -/
theorem Value.Legible.reads (h : v.Legible) : Reads v := by
  induction h with
  | list h ih => exact reads_list ih fun v hv => (h v hv).opens
  | record h ih => exact reads_record ih
  | null => exact reads_of_succ fun fuel rest hfuel hrest => rfl
  | broken => exact reads_of_succ fun fuel rest hfuel hrest => rfl
  | bool b =>
    apply reads_of_succ
    intro fuel rest hfuel hrest
    cases b <;> rfl
  | whole n =>
    apply reads_of_succ
    intro fuel rest hfuel hrest
    rw [write, readValue_number (isWhole_toDigits n).begins, readNumber_toDigits n hrest]
  | numeral h =>
    apply reads_of_succ
    intro fuel rest hfuel hrest
    rw [write, readValue_number h.begins, h.read hrest]
  | text s =>
    apply reads_of_succ
    intro fuel rest hfuel hrest
    have hquote : ∀ cs, skipBlanks ('"' :: cs) = '"' :: cs := fun cs => rfl
    simp only [write, writeText, List.cons_append, List.append_assoc, List.nil_append, readValue,
      hquote, readText_write]

theorem readChars_write (h : v.Legible) : readChars v.write = some v := by
  have hread := h.reads (v.write.length + 1) [] (Nat.lt_succ_self _) (fun c hc => nomatch hc)
  rw [List.append_nil] at hread
  simp only [readChars, hread]
  rfl

theorem Value.Legible.ofText?_toText (h : v.Legible) : ofText? v.toText = some v := by
  rw [ofText?, toText, String.toList_ofList, readChars_write h]

end ReadTracking.Json
