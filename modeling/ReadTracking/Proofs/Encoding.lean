import ReadTracking.Cbor.Marker
import ReadTracking.Proofs.Records

/-!
# Stored markers are read back

Whatever is written as a head, as a text or a number, or as a field of a record is read back, and
what follows it is left.  So a stored marker is read back as it was written.  Numbers and lengths
of 64 bits are all that the format can write.
-/

set_option autoImplicit false

namespace ReadTracking.Cbor

def headBound : Nat := 1 <<< 64

/-! ## Heads -/

theorem split?_append {bytes : List UInt8} {n : Nat} (h : bytes.length = n)
    (rest : List UInt8) : split? n (bytes ++ rest) = some (bytes, rest) := by
  subst h
  simp [split?]

theorem firstByte (major minor : Nat) (hmajor : major < 8) (hminor : minor < 32) :
    (major * 32 + minor).toUInt8.toNat / 32 = major ∧
      (major * 32 + minor).toUInt8.toNat % 32 = minor := by
  have hbyte : (major * 32 + minor).toUInt8.toNat = (major * 32 + minor) % 256 := by simp
  omega

theorem readHead_wide {major minor width n : Nat} (hmajor : major < 7)
    (hwidth : width? minor = some width) (hminor : 24 ≤ minor ∧ minor < 31)
    (hn : n < Nat.pow 256 width) (rest : List UInt8) :
    readHead ((major * 32 + minor).toUInt8 :: bytesBigEndian width n ++ rest) =
      some (.number major n, rest) := by
  obtain ⟨hfirst, hsecond⟩ := firstByte major minor (by omega) (by omega)
  have hsmall : ¬ minor < 24 := by omega
  have hindefinite : minor ≠ 31 := by omega
  have hfloat : ¬ (major = 7 ∧ 25 ≤ minor) := by omega
  rw [List.cons_append, readHead]
  simp only [hfirst, hsecond, hsmall, hindefinite, hfloat, if_false, hwidth, Option.bind_some,
    split?_append (length_bytesBigEndian width n), Option.map_some, natBigEndian_bytesBigEndian,
    Nat.mod_eq_of_lt hn]

theorem readHead_head {major n : Nat} (hmajor : major < 7) (hn : n < headBound)
    (rest : List UInt8) : readHead (head major n ++ rest) = some (.number major n, rest) := by
  -- One case for each width in which the number may be written.
  unfold head
  split
  next h =>
    obtain ⟨hfirst, hsecond⟩ := firstByte major n (by omega) (by omega)
    rw [List.singleton_append, readHead]
    simp only [hfirst, hsecond, h, if_true]
  next =>
    split
    next h => exact readHead_wide hmajor rfl (by omega) h rest
    next =>
      split
      next h => exact readHead_wide hmajor rfl (by omega) h rest
      next =>
        split
        next h => exact readHead_wide hmajor rfl (by omega) h rest
        next => exact readHead_wide hmajor rfl (by omega) hn rest

theorem readUntaggedHead_head {major n : Nat} (hmajor : major < 6) (hn : n < headBound)
    (rest : List UInt8) :
    readUntaggedHead (head major n ++ rest) = some (.number major n, rest) := by
  have hhead : readHead (head major n ++ rest) = some (.number major n, rest) :=
    readHead_head (by omega) hn rest
  have hskip : ∀ fuel, skipTags fuel (head major n ++ rest) = head major n ++ rest := by
    intro fuel
    cases fuel with
    | zero => rfl
    | succ fuel =>
      rw [skipTags, hhead]
      split
      next he =>
        cases he
        omega
      next => rfl
  rw [readUntaggedHead, hskip, hhead]

/-! ## Items -/

namespace Item

inductive Flat : Item → Prop where
  | text {s : String} : (utf8 s).length < headBound → Flat (text s)
  | unsigned {n : Nat} : n < headBound → Flat (unsigned n)
  | null : Flat null

end Item

theorem readNext_text {s : String} (h : (utf8 s).length < headBound) (rest : List UInt8) :
    readNext (write (.text s) ++ rest) = some (.text s, rest) := by
  rw [readNext, readItem, write, List.append_assoc, readHead_head (by decide) h]
  simp only [split?_append rfl, Option.bind_some, text?_utf8, Option.map_some]

theorem readNext_unsigned {n : Nat} (h : n < headBound) (rest : List UInt8) :
    readNext (write (.unsigned n) ++ rest) = some (.unsigned n, rest) := by
  rw [readNext, readItem, write, readHead_head (by decide) h]
  rfl

theorem readNext_null (rest : List UInt8) :
    readNext (write .null ++ rest) = some (.null, rest) := by
  rw [readNext, readItem]
  rfl

theorem readNext_write {i : Item} (h : i.Flat) (rest : List UInt8) :
    readNext (write i ++ rest) = some (i, rest) := by
  cases h with
  | text h => exact readNext_text h rest
  | unsigned h => exact readNext_unsigned h rest
  | null => exact readNext_null rest

/-! ## Fields -/

theorem find?_utf8 {names : List String} {name : String} (h : name ∈ names) :
    names.find? (fun n => utf8 n == utf8 name) = some name := by
  cases hf : names.find? (fun n => utf8 n == utf8 name) with
  | none =>
    have hnone := List.find?_eq_none.1 hf name h
    exact absurd BEq.rfl hnone
  | some n =>
    have hn := List.find?_some hf
    rw [beq_iff_eq, utf8_inj] at hn
    rw [hn]

theorem length_markerName {name : String} (h : name ∈ markerNames) :
    (utf8 name).length ≤ maxName := by
  have hall : ∀ n ∈ markerNames, (utf8 n).length ≤ maxName := by decide
  exact hall name h

structure Known (f : String × Item) : Prop where
  name : f.1 ∈ markerNames
  flat : f.2.Flat
  choice : f.1 = "kind" → ∃ s, f.2 = .text s

theorem known_text {name s : String} (h : name ∈ markerNames) (hs : (utf8 s).length < headBound) :
    Known (name, .text s) :=
  ⟨h, .text hs, fun _ => ⟨s, rfl⟩⟩

theorem known_flat {name : String} {i : Item} (h : name ∈ markerNames) (hname : name ≠ "kind")
    (hi : i.Flat) : Known (name, i) :=
  ⟨h, hi, fun e => absurd e hname⟩

theorem readValue_write {f : String × Item} (h : Known f) (rest : List UInt8) :
    readValue f.1 (write f.2 ++ rest) = some (f.2, rest) := by
  rw [readValue]
  split
  next hkind =>
    -- A choice could stand in a map of one pair; as it is written, it does not.
    obtain ⟨s, hs⟩ := h.choice hkind
    have hflat := h.flat
    rw [hs] at hflat ⊢
    have hnext := readNext_write hflat rest
    cases hflat with
    | text hlength =>
      rw [readChoice, ← hnext, write, List.append_assoc,
        readUntaggedHead_head (by decide) hlength]
      rfl
  next => exact readNext_write h.flat rest

theorem readField_write {f : String × Item} (h : Known f) (rest : List UInt8) :
    readField (write (.text f.1) ++ (write f.2 ++ rest)) = some (some f, rest) := by
  have hlength := length_markerName h.name
  have hname : (utf8 f.1).length < headBound := Nat.lt_of_le_of_lt hlength (by decide)
  have hshort : name? (.text f.1) = some (utf8 f.1) := by
    simp only [name?, untagged, Option.filter, hlength, decide_true, if_true]
  simp only [readField, readNext_text hname, Option.bind_some, hshort, find?_utf8 h.name,
    readValue_write h, Option.map_some]

theorem readFields_write {fs : Fields Item} (h : ∀ f ∈ fs, Known f) {fuel : Nat}
    (hfuel : fs.length ≤ fuel) (rest : List UInt8) :
    readFields fuel (some fs.length)
      (writePairs (fs.map fun f => (.text f.1, f.2)) ++ rest) = some fs := by
  induction fs generalizing fuel with
  | nil => rw [List.length_nil, readFields]
  | cons f fs ih =>
    cases fuel with
    | zero => cases hfuel
    | succ fuel =>
      have hrest := ih (fun f hf => h f (List.mem_cons_of_mem _ hf)) (Nat.le_of_succ_le_succ hfuel)
      rw [List.map_cons, writePairs, List.append_assoc, List.append_assoc, List.length_cons,
        readFields, readField_write (h f List.mem_cons_self), Option.bind_some]
      simp only [hrest, Option.map_some, Option.toList, List.singleton_append]

theorem length_head_pos (major n : Nat) : 0 < (head major n).length := by
  unfold head
  repeat' split
  all_goals exact Nat.succ_pos _

theorem length_le_writePairs (fs : Fields Item) :
    fs.length ≤ (writePairs (fs.map fun f => (.text f.1, f.2))).length := by
  induction fs with
  | nil => exact Nat.zero_le _
  | cons f fs ih =>
    have hhead : 0 < (write (.text f.1)).length := by
      rw [write, List.length_append]
      exact Nat.lt_add_right _ (length_head_pos _ _)
    simp only [List.map_cons, writePairs, List.length_append, List.length_cons]
    omega

/-! ## Markers -/

structure Encodable (e : Entry) : Prop where
  room : (utf8 e.slot.scope.room.text).length < headBound
  thread : ∀ root, e.slot.scope.thread = some root → (utf8 root.text).length < headBound
  event : (utf8 e.mark.event.text).length < headBound
  sequence : e.mark.sequence < headBound
  stamp : e.mark.stamp < headBound

variable {e : Entry}

theorem Encodable.known (h : Encodable e) : ∀ f ∈ markerFields e, Known f := by
  have hkind : ∀ v : Visibility, (utf8 v.word).length < headBound := by
    intro v
    cases v <;> decide
  intro f hf
  simp only [markerFields, List.mem_cons, List.not_mem_nil, or_false] at hf
  rcases hf with rfl | rfl | rfl | rfl | rfl | rfl
  · exact known_text (by decide) h.room
  · refine known_flat (by decide) (by decide) ?_
    cases ht : e.slot.scope.thread with
    | none => exact .null
    | some root => exact .text (h.thread root ht)
  · exact known_text (by decide) (hkind _)
  · exact known_text (by decide) h.event
  · exact known_flat (by decide) (by decide) (.unsigned h.sequence)
  · exact known_flat (by decide) (by decide) (.unsigned h.stamp)

theorem visibility?_word (v : Visibility) : visibility? (.text v.word) = some v := by
  cases v <;> decide

theorem markerOfFields_markerFields (e : Entry) : markerOfFields (markerFields e) = some e := by
  obtain ⟨⟨⟨⟨room⟩, thread⟩, visibility⟩, ⟨⟨event⟩, sequence, stamp⟩⟩ := e
  cases thread <;>
    simp [markerOfFields, markerFields, Fields.required, Fields.optional, Fields.all,
      visibility?_word, string?, stringOrNull?, untagged, number?, Item.null]

theorem markerOfFields_of_perm {fs : Fields Item} (h : fs.Perm (markerFields e)) :
    markerOfFields fs = some e := by
  have hnodup : ((markerFields e).map (·.1)).Nodup := by
    show markerNames.Nodup
    decide
  have hall := Fields.all_eq_of_perm h hnodup
  have hsame : markerOfFields fs = markerOfFields (markerFields e) := by
    simp only [markerOfFields, Fields.required, Fields.optional, hall]
  rw [hsame, markerOfFields_markerFields]

theorem readMarker_write {fs : Fields Item} (h : ∀ f ∈ fs, Known f)
    (hcount : fs.length < headBound) (rest : List UInt8) :
    readMarker (write (record fs) ++ rest) = markerOfFields fs := by
  have hfields := readFields_write h (Nat.le_trans (length_le_writePairs _)
    (Nat.le_add_right _ rest.length)) rest
  rw [← List.length_append] at hfields
  rw [readMarker, record, write, List.length_map, List.append_assoc,
    readUntaggedHead_head (by decide) hcount]
  simp only [hfields, Option.bind_some]

theorem readMarker_of_perm (h : Encodable e) {fs : Fields Item} (hperm : fs.Perm (markerFields e))
    (rest : List UInt8) : readMarker (write (record fs) ++ rest) = some e := by
  have hknown : ∀ f ∈ fs, Known f := fun f hf => h.known f (hperm.mem_iff.1 hf)
  have hcount : fs.length < headBound := by
    rw [hperm.length_eq]
    show 6 < headBound
    decide
  rw [readMarker_write hknown hcount, markerOfFields_of_perm hperm]

/-- A stored marker is read back as it was written, whatever follows it. -/
theorem readMarker_writeMarker (h : Encodable e) (rest : List UInt8) :
    readMarker (writeMarker e ++ rest) = some e :=
  readMarker_of_perm h (.refl _) rest

theorem writeMarker_injective (h : Encodable e) {e' : Entry} (h' : Encodable e')
    (hsame : writeMarker e' = writeMarker e) : e' = e := by
  have hread := readMarker_writeMarker h []
  rw [← hsame, readMarker_writeMarker h' []] at hread
  exact Option.some.inj hread

/-- Every stored marker is read back: as it was written, with other bytes behind it, and with its
fields in another order.  So no two markers have the same bytes. -/
theorem stored_markers_read_back (h : Encodable e) :
    readMarker (writeMarker e) = some e ∧
      (∀ rest, readMarker (writeMarker e ++ rest) = some e) ∧
      (∀ fs, fs.Perm (markerFields e) → ∀ rest,
        readMarker (write (record fs) ++ rest) = some e) ∧
      ∀ e', Encodable e' → writeMarker e' = writeMarker e → e' = e := by
  refine ⟨?_, readMarker_writeMarker h, ?_, ?_⟩
  · have hread := readMarker_writeMarker h []
    rwa [List.append_nil] at hread
  · intro fs hperm rest
    exact readMarker_of_perm h hperm rest
  · intro e' h' hsame
    exact writeMarker_injective h h' hsame

/-- A room of 24 bytes, a message of 256, a sequence of 33 bits and the last stamp of all, with
the fields in the opposite order and a byte behind them. -/
theorem stored_markers_read_back_reversed :
    let e : Entry :=
      ⟨⟨.ofThread ⟨"!a-room-of-24-bytes-long"⟩ ⟨"$root"⟩, .personal⟩,
        ⟨⟨String.ofList (List.replicate 256 '$')⟩, 1 <<< 32, (1 <<< 64) - 1⟩⟩
    Encodable e ∧ (markerFields e).reverse.Perm (markerFields e) ∧
      readMarker (write (record (markerFields e).reverse) ++ [0]) = some e := by
  intro e
  have h : Encodable e := by
    refine ⟨by decide, ?_, by decide +kernel, by decide, by decide⟩
    intro root hroot
    cases hroot
    decide
  have hperm := List.reverse_perm (markerFields e)
  exact ⟨h, hperm, (stored_markers_read_back h).2.2.1 _ hperm _⟩

end ReadTracking.Cbor
