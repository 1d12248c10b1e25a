import Mathlib.Data.List.TakeWhile
import ReadTracking.Backing.ByteTable
import ReadTracking.Proofs.SlotKeys
import ReadTracking.Proofs.Tables

/-!
# The rows of a room stand together

Around the key of a room the rows of a table fall into three stretches: those below it, those that
begin with it, and those above.  A scan reads the stretch in the middle.  Where every row stands
under the key of a slot, that stretch holds the rows of the room, each of them once, and no others,
so to load or to forget a room touches neither a longer name nor a shorter one.
-/

set_option autoImplicit false

namespace ReadTracking

open KeyOrder

/-! ## The room of a key -/

def keyRoom? (key : List UInt8) : Option RoomId :=
  (text? ((key.drop 4).take (natBigEndian (key.take 4)))).map RoomId.mk

theorem keyRoom?_slotKey {s : Slot} (hs : s.scope.room.Fits) :
    keyRoom? (slotKey s) = some s.scope.room := by
  have hlength : natBigEndian (bytesBigEndian 4 (utf8 s.scope.room.text).length) =
      (utf8 s.scope.room.text).length := by
    rw [natBigEndian_bytesBigEndian]
    exact Nat.mod_eq_of_lt hs
  have hfour : (bytesBigEndian 4 (utf8 s.scope.room.text).length).length = 4 :=
    length_bytesBigEndian _ _
  rw [keyRoom?, slotKey, roomKey, List.append_assoc, List.take_left' hfour, List.drop_left' hfour,
    hlength, List.take_left' rfl, text?_utf8]
  rfl

namespace ByteTable

variable {t : ByteTable} {start : List UInt8} {room : RoomId} {row : List UInt8 × List UInt8}

/-! ## Three stretches -/

def below (t : ByteTable) (start : List UInt8) : List (List UInt8 × List UInt8) :=
  t.rows.entries.takeWhile fun row => decide (before row.1 start)

def above (t : ByteTable) (start : List UInt8) : List (List UInt8 × List UInt8) :=
  (t.rows.entries.dropWhile fun row => decide (before row.1 start)).dropWhile
    fun row => start.isPrefixOf row.1

theorem entries_eq_stretches (t : ByteTable) (start : List UInt8) :
    t.rows.entries = t.below start ++ (t.scan start ++ t.above start) := by
  rw [below, scan, above, List.takeWhile_append_dropWhile, List.takeWhile_append_dropWhile]

theorem scan_eq_filter (t : ByteTable) (start : List UInt8) :
    t.scan start = t.rows.entries.filter fun row => start.isPrefixOf row.1 :=
  takeWhile_dropWhile_isPrefixOf t.rows.rising

theorem before_of_mem_below (h : row ∈ t.below start) : before row.1 start := by
  have hb := List.mem_takeWhile_imp h
  exact of_decide_eq_true hb

theorem isPrefix_of_mem_scan (h : row ∈ t.scan start) : start <+: row.1 := by
  have hp := List.mem_takeWhile_imp h
  exact List.isPrefixOf_iff_prefix.1 hp

theorem not_isPrefix_of_mem_above (h : row ∈ t.above start) : ¬ start <+: row.1 := by
  -- The scan has taken all rows that begin with the key, so none of them is left behind it.
  have hfilter := t.scan_eq_filter start
  have hbelow : (t.below start).filter (fun row => start.isPrefixOf row.1) = [] :=
    List.filter_eq_nil_iff.2 fun row hrow hp =>
      not_before_of_isPrefix (List.isPrefixOf_iff_prefix.1 hp) (before_of_mem_below hrow)
  have hscan : (t.scan start).filter (fun row => start.isPrefixOf row.1) = t.scan start :=
    List.filter_eq_self.2 fun row hrow => List.isPrefixOf_iff_prefix.2 (isPrefix_of_mem_scan hrow)
  rw [t.entries_eq_stretches start, List.filter_append, List.filter_append, hbelow, hscan,
    List.nil_append, List.self_eq_append_right] at hfilter
  exact fun hp => List.filter_eq_nil_iff.1 hfilter row h (List.isPrefixOf_iff_prefix.2 hp)

theorem not_before_of_mem_dropWhile {rows : List (List UInt8 × List UInt8)}
    (hrising : rows.Pairwise fun p q => before p.1 q.1)
    (h : row ∈ rows.dropWhile fun row => decide (before row.1 start)) :
    ¬ before row.1 start := by
  induction rows with
  | nil => cases h
  | cons first rows ih =>
    obtain ⟨hfirst, hrest⟩ := List.pairwise_cons.1 hrising
    rw [List.dropWhile_cons] at h
    split at h
    next => exact ih hrest h
    next hb =>
      have hb : ¬ before first.1 start := by simpa using hb
      rcases List.mem_cons.1 h with rfl | h
      · exact hb
      · exact fun hrow => hb (trans (hfirst row h) hrow)

theorem before_of_mem_above (h : row ∈ t.above start) : before start row.1 := by
  have hnot : ¬ before row.1 start :=
    not_before_of_mem_dropWhile t.rows.rising (List.dropWhile_subset _ h)
  by_contra hb
  have heq : start = row.1 := connected hb hnot
  exact not_isPrefix_of_mem_above h (heq ▸ List.prefix_rfl)

/-! ## The rows of a room -/

def SlotKeyed (t : ByteTable) : Prop :=
  ∀ row ∈ t.rows.entries, ∃ s : Slot, s.scope.room.Fits ∧ slotKey s = row.1

def rowsOf (t : ByteTable) (room : RoomId) : List (List UInt8 × List UInt8) :=
  t.rows.entries.filter fun row => keyRoom? row.1 == some room

theorem SlotKeyed.scan_roomKey (ht : t.SlotKeyed) (hroom : room.Fits) :
    t.scan (roomKey room) = t.rowsOf room := by
  rw [scan_eq_filter, rowsOf]
  refine List.filter_congr fun row hrow => ?_
  obtain ⟨s, hs, hkey⟩ := ht row hrow
  rw [← hkey, roomKey_isPrefixOf_slotKey hroom hs, keyRoom?_slotKey hs, Option.some_beq_some]

theorem nodup_keys_rowsOf (t : ByteTable) (room : RoomId) : ((t.rowsOf room).map (·.1)).Nodup :=
  t.rows.nodup_keys.sublist (List.Sublist.map _ List.filter_sublist)

theorem mem_rowsOf : row ∈ t.rowsOf room ↔
    t.rows.get? row.1 = some row.2 ∧ keyRoom? row.1 = some room := by
  rw [rowsOf, List.mem_filter, beq_iff_eq, Table.get?_eq_some_iff]

theorem SlotKeyed.get?_forget (ht : t.SlotKeyed) (hroom : room.Fits) (key : List UInt8) :
    (t.forget room).2.rows.get? key =
      if keyRoom? key = some room then none else t.rows.get? key := by
  have hforget : ∀ bytes, (t.forget room).2.rows.get? key = some bytes ↔
      key ∉ (t.rowsOf room).map (·.1) ∧ t.rows.get? key = some bytes := by
    intro bytes
    rw [forget, ht.scan_roomKey hroom]
    exact Table.get?_foldl_erase_eq_some_iff
  have hkeys : key ∈ (t.rowsOf room).map (·.1) ↔
      keyRoom? key = some room ∧ ∃ bytes, t.rows.get? key = some bytes := by
    rw [List.mem_map]
    constructor
    · rintro ⟨row, hrow, rfl⟩
      obtain ⟨hget, hnamed⟩ := mem_rowsOf.1 hrow
      exact ⟨hnamed, row.2, hget⟩
    · rintro ⟨hnamed, bytes, hget⟩
      exact ⟨(key, bytes), mem_rowsOf.2 ⟨hget, hnamed⟩, rfl⟩
  refine Option.ext fun bytes => (hforget bytes).trans ?_
  rw [hkeys]
  by_cases hnamed : keyRoom? key = some room
  · rw [if_pos hnamed]
    constructor
    · rintro ⟨hnot, hget⟩
      exact absurd ⟨hnamed, bytes, hget⟩ hnot
    · rintro ⟨⟩
  · rw [if_neg hnamed]
    exact ⟨And.right, fun hget => ⟨fun h => hnamed h.1, hget⟩⟩

/-! ## Tables of markers -/

theorem slotKeyed_empty : empty.SlotKeyed := fun _ h => by cases h

theorem SlotKeyed.write (ht : t.SlotKeyed) {e : Entry} (he : e.slot.scope.room.Fits)
    {t' : ByteTable} (h : t.write e = .ok t') : t'.SlotKeyed := by
  have hrows : t' = ⟨t.rows.insert (slotKey e.slot) (Cbor.writeMarker e)⟩ := by
    simp only [ByteTable.write] at h
    split at h
    · split at h
      · cases h
      · exact (Except.ok.inj h).symm
    · exact (Except.ok.inj h).symm
  subst hrows
  intro row hrow
  have hget := (Table.get?_eq_some_iff _).2 hrow
  by_cases hkey : row.1 = slotKey e.slot
  · exact ⟨e.slot, he, hkey.symm⟩
  · rw [Table.get?_insert_of_ne _ _ hkey] at hget
    exact ht row ((Table.get?_eq_some_iff _).1 hget)

theorem SlotKeyed.storeAll (ht : t.SlotKeyed) {es : List Entry}
    (hes : ∀ e ∈ es, e.slot.scope.room.Fits) : (t.storeAll es).2.SlotKeyed := by
  have hwrites : ∀ {t t' : ByteTable}, t.SlotKeyed → writeAll es t = .ok t' → t'.SlotKeyed := by
    induction es with
    | nil =>
      rintro t t' ht ⟨⟩
      exact ht
    | cons e es ih =>
      intro t t' ht h
      rw [writeAll] at h
      split at h
      next written hw =>
        exact ih (fun e' he' => hes e' (List.mem_cons_of_mem _ he'))
          (ht.write (hes e List.mem_cons_self) hw) h
      next => cases h
  rw [ByteTable.storeAll]
  split
  next hw => exact hwrites ht hw
  next => exact ht

/-! ## Main statement -/

structure ScansExactly (t : ByteTable) (room : RoomId) : Prop where
  scan : t.scan (roomKey room) = t.rowsOf room
  stretches : t.rows.entries =
    t.below (roomKey room) ++ (t.rowsOf room ++ t.above (roomKey room))
  below : ∀ row ∈ t.below (roomKey room), before row.1 (roomKey room)
  begin : ∀ row ∈ t.rowsOf room, roomKey room <+: row.1
  above : ∀ row ∈ t.above (roomKey room), before (roomKey room) row.1 ∧ ¬ roomKey room <+: row.1
  once : ((t.rowsOf room).map (·.1)).Nodup
  slots : ∀ (s : Slot) (bytes : List UInt8), s.scope.room.Fits →
    ((slotKey s, bytes) ∈ t.rowsOf room ↔
      s.scope.room = room ∧ t.rows.get? (slotKey s) = some bytes)
  load : t.loadRoom room = (.ok (decoded (t.rowsOf room)), t)
  forget : (t.forget room).1 = .ok (t.rowsOf room).length
  left : ∀ key, (t.forget room).2.rows.get? key =
    if keyRoom? key = some room then none else t.rows.get? key

theorem SlotKeyed.scansExactly (ht : t.SlotKeyed) (hroom : room.Fits) : t.ScansExactly room where
  scan := ht.scan_roomKey hroom
  stretches := ht.scan_roomKey hroom ▸ t.entries_eq_stretches (roomKey room)
  below _ h := before_of_mem_below h
  begin row h := isPrefix_of_mem_scan (ht.scan_roomKey hroom ▸ h)
  above _ h := ⟨before_of_mem_above h, not_isPrefix_of_mem_above h⟩
  once := t.nodup_keys_rowsOf room
  slots s bytes hs := by
    rw [mem_rowsOf, keyRoom?_slotKey hs, Option.some_inj, and_comm]
  load := by rw [loadRoom, ht.scan_roomKey hroom]
  forget := by rw [ByteTable.forget, ht.scan_roomKey hroom, List.length_map]
  left := ht.get?_forget hroom

end ByteTable

/-- Slots have keys of their own, the keys that begin with the key of a room are those of its
slots, and among the rows of a table they stand together, where every scan for the room finds
them. -/
theorem room_rows_stand_together :
    (∀ s s' : Slot, s.scope.room.Fits → s'.scope.room.Fits → (slotKey s = slotKey s' ↔ s = s')) ∧
    (∀ (room : RoomId) (s : Slot), room.Fits → s.scope.room.Fits →
      (roomKey room <+: slotKey s ↔ s.scope.room = room)) ∧
    ∀ (t : ByteTable) (room : RoomId), t.SlotKeyed → room.Fits → t.ScansExactly room := by
  refine ⟨fun s s' hs hs' => ⟨slotKey_inj hs hs', congrArg slotKey⟩, fun room s hroom hs => ?_,
    fun t room ht hroom => ht.scansExactly hroom⟩
  rw [← List.isPrefixOf_iff_prefix, roomKey_isPrefixOf_slotKey hroom hs, beq_iff_eq]

/-- One name begins the other, one is empty, and so is the name of a thread. -/
theorem room_rows_stand_together_of_names :
    let ab : RoomId := ⟨"!ab"⟩
    let abc : RoomId := ⟨"!abc"⟩
    let nameless : RoomId := ⟨""⟩
    let slot (room : RoomId) (thread : Option EventId) (visibility : Visibility) : Slot :=
      ⟨⟨room, thread⟩, visibility⟩
    let slots : List Slot := [slot abc none .shared, slot ab (some ⟨""⟩) .shared,
      slot nameless none .personal, slot ab none .shared, slot abc (some ⟨"$t"⟩) .personal]
    let t := (ByteTable.empty.storeAll (slots.map fun s => ⟨s, ⟨⟨"$e"⟩, 7, 0⟩⟩)).2
    (∀ s ∈ slots, s.scope.room.Fits) ∧ t.SlotKeyed ∧ ab.Fits ∧
      slotKey (slot ab none .shared) ≠ slotKey (slot ab (some ⟨""⟩) .shared) ∧
      ¬ roomKey ab <+: slotKey (slot abc none .shared) ∧ t.ScansExactly ab ∧
      (t.scan (roomKey ab)).map (·.1) =
        [slotKey (slot ab none .shared), slotKey (slot ab (some ⟨""⟩) .shared)] := by
  intro ab abc nameless slot slots t
  have hab : ab.Fits := by decide +kernel
  have habc : abc.Fits := by decide +kernel
  have hslots : ∀ s ∈ slots, s.scope.room.Fits := by decide +kernel
  have ht : t.SlotKeyed := ByteTable.slotKeyed_empty.storeAll fun e he => by
    obtain ⟨s, hs, rfl⟩ := List.mem_map.1 he
    exact hslots s hs
  obtain ⟨hkeys, hbegins, hscans⟩ := room_rows_stand_together
  refine ⟨hslots, ht, hab, fun h => ?_, fun h => ?_, hscans t ab ht hab, by decide +kernel⟩
  · exact absurd ((hkeys _ _ hab hab).1 h) (by decide)
  · exact absurd ((hbegins ab _ hab habc).1 h) (by decide)

end ReadTracking
