import ReadTracking.Proofs.Batches

/-!
# A spoilt row keeps its harm to itself

Bytes that are no marker stand under the key of one slot.  They are passed over where markers are
listed, they never stand in the way of a write, and the first write of their slot that goes through
replaces them.  So the table answers like one that has nothing there, as long as nobody asks for
that slot itself, and a batch that is undone leaves the bytes as they were.
-/

set_option autoImplicit false

namespace ReadTracking

open Backing KeyOrder

/-! ## Calls that meet a key -/

namespace StorageCall

def Spares (key : List UInt8) : StorageCall → Prop
  | load slot => slotKey slot ≠ key
  | forget _ => False
  | store _ | storeAll _ | loadRoom _ | list => True

def Writes (key : List UInt8) : StorageCall → Prop
  | store e => slotKey e.slot = key
  | storeAll es => ∃ e ∈ es, slotKey e.slot = key
  | load _ | loadRoom _ | list | forget _ => False

instance (key : List UInt8) (c : StorageCall) : Decidable (c.Spares key) :=
  match c with
  | load slot => inferInstanceAs (Decidable (slotKey slot ≠ key))
  | forget _ => inferInstanceAs (Decidable False)
  | store _ | storeAll _ | loadRoom _ | list => inferInstanceAs (Decidable True)

instance (key : List UInt8) (c : StorageCall) : Decidable (c.Writes key) :=
  match c with
  | store e => inferInstanceAs (Decidable (slotKey e.slot = key))
  | storeAll es => inferInstanceAs (Decidable (∃ e ∈ es, slotKey e.slot = key))
  | load _ | loadRoom _ | list | forget _ => inferInstanceAs (Decidable False)

def makeAll {σ : Type} [Backing σ] :
    List StorageCall → σ → List (Except StorageError StorageReply) × σ
  | [], s => ([], s)
  | c :: cs, s =>
    let (reply, s) := c.make s
    let (replies, s) := makeAll cs s
    (reply :: replies, s)

def Rewritten (key : List UInt8) (cs : List StorageCall)
    (replies : List (Except StorageError StorageReply)) : Prop :=
  ∃ p ∈ cs.zip replies, p.1.Writes key ∧ p.2.isOk = true

instance (key : List UInt8) (cs : List StorageCall)
    (replies : List (Except StorageError StorageReply)) : Decidable (Rewritten key cs replies) :=
  inferInstanceAs (Decidable (∃ p ∈ cs.zip replies, p.1.Writes key ∧ p.2.isOk = true))

theorem rewritten_cons {key : List UInt8} {c : StorageCall} {cs : List StorageCall}
    {reply : Except StorageError StorageReply}
    {replies : List (Except StorageError StorageReply)} :
    Rewritten key (c :: cs) (reply :: replies) ↔
      (c.Writes key ∧ reply.isOk = true) ∨ Rewritten key cs replies := by
  rw [Rewritten, List.zip_cons_cons, List.exists_mem_cons_iff]
  rfl

end StorageCall

/-- Where a key is shorter than 2^32 bytes, no other slot has it. -/
theorem slotKey_ne_of_short {slot other : Slot} (h : (slotKey slot).length < 1 <<< 32)
    (hne : other ≠ slot) : slotKey other ≠ slotKey slot := by
  have hfits : ∀ {s : Slot}, (slotKey s).length < 1 <<< 32 → s.scope.room.Fits := by
    intro s hs
    refine Nat.lt_of_le_of_lt ?_ hs
    simp only [slotKey, roomKey, List.length_append]
    omega
  intro hkey
  exact hne (slotKey_inj (hfits (hkey ▸ h)) (hfits h) hkey)

namespace ByteTable

/-! ## Two tables that differ under one key -/

structure SpoiltAt (t : ByteTable) (key bytes : List UInt8) (t' : ByteTable) : Prop where
  unreadable : Cbor.readMarker bytes = none
  spoilt : t.rows.get? key = some bytes
  missing : t'.rows.get? key = none
  elsewhere : ∀ k, k ≠ key → t.rows.get? k = t'.rows.get? k

/-- Two tables are equal if the spoilt bytes of one were replaced, and differ in them if not. -/
structure AlikeBut (t : ByteTable) (key bytes : List UInt8) (replaced : Prop) (t' : ByteTable) :
    Prop where
  equal : replaced → t = t'
  spoilt : ¬ replaced → t.SpoiltAt key bytes t'

variable {t t' : ByteTable} {key bytes : List UInt8} {replaced replaced' : Prop}

theorem write_eq (t : ByteTable) (e : Entry) : t.write e =
    match t.marker? e.slot with
    | some old =>
      if e.mark.sequence < old.mark.sequence then
        .error (.regression old.mark.sequence e.mark.sequence)
      else .ok (t.put e)
    | none => .ok (t.put e) :=
  rfl

theorem load_eq (t : ByteTable) (slot : Slot) : ByteTable.load slot t =
    (match t.rows.get? (slotKey slot) with
      | none => .ok none
      | some bytes =>
        match Cbor.readMarker bytes with
        | some e => .ok (some e)
        | none => .error undecodable, t) := by
  unfold ByteTable.load
  cases t.rows.get? (slotKey slot) with
  | none => rfl
  | some bytes =>
    dsimp only
    cases Cbor.readMarker bytes <;> rfl

theorem AlikeBut.congr (h : t.AlikeBut key bytes replaced t') (hiff : replaced ↔ replaced') :
    t.AlikeBut key bytes replaced' t' :=
  ⟨fun hr => h.equal (hiff.2 hr), fun hr => h.spoilt (mt hiff.1 hr)⟩

theorem AlikeBut.elsewhere (h : t.AlikeBut key bytes replaced t') {k : List UInt8} (hk : k ≠ key) :
    t.rows.get? k = t'.rows.get? k := by
  by_cases hr : replaced
  · rw [h.equal hr]
  · exact (h.spoilt hr).elsewhere k hk

namespace SpoiltAt

variable (h : t.SpoiltAt key bytes t')

include h

theorem alikeBut (hr : ¬ replaced) : t.AlikeBut key bytes replaced t' :=
  ⟨fun hr' => absurd hr' hr, fun _ => h⟩

/-! ### What is read -/

theorem marker?_eq (slot : Slot) : t.marker? slot = t'.marker? slot := by
  unfold marker?
  by_cases hk : slotKey slot = key
  · rw [hk, h.spoilt, h.missing]
    exact h.unreadable
  · rw [h.elsewhere _ hk]

theorem rows_eq : t'.rows.entries = t.rows.entries.filter fun row => row.1 ≠ key := by
  refine congrArg Table.entries (?_ : t'.rows = t.rows.filter fun k _ => decide (k ≠ key))
  apply Table.ext_get?
  intro k
  rw [Table.get?_filter]
  by_cases hk : k = key
  · subst hk
    rw [h.missing, h.spoilt]
    simp
  · rw [← h.elsewhere k hk]
    cases t.rows.get? k with
    | none => rfl
    | some value =>
      rw [Option.filter_some, if_pos (decide_eq_true hk)]

theorem decoded_filter (p : List UInt8 × List UInt8 → Bool) :
    decoded (t.rows.entries.filter p) = decoded (t'.rows.entries.filter p) := by
  unfold decoded
  rw [h.rows_eq, List.filter_filter, List.filterMap_filter, List.filterMap_filter]
  apply List.filterMap_congr
  intro row hrow
  by_cases hk : row.1 = key
  · have hvalue : t.rows.get? key = some row.2 := hk ▸ (Table.get?_eq_some_iff _).2 hrow
    have hnone : Cbor.readMarker row.2 = none := by
      cases h.spoilt.symm.trans hvalue
      exact h.unreadable
    simp [hnone]
  · simp [hk]

theorem entries_eq : t.entries = t'.entries := by
  have hall := h.decoded_filter fun _ => true
  rwa [List.filter_true, List.filter_true] at hall

theorem decoded_scan_eq (start : List UInt8) :
    decoded (t.scan start) = decoded (t'.scan start) := by
  rw [scan, scan, takeWhile_dropWhile_isPrefixOf t.rows.rising,
    takeWhile_dropWhile_isPrefixOf t'.rows.rising]
  exact h.decoded_filter _

/-! ### What is written -/

theorem put (e : Entry) :
    (t.put e).AlikeBut key bytes (slotKey e.slot = key) (t'.put e) where
  equal hkey := by
    refine congrArg ByteTable.mk (Table.ext_get? fun k => ?_)
    by_cases hk : k = slotKey e.slot
    · rw [hk, Table.get?_insert_self, Table.get?_insert_self]
    · rw [Table.get?_insert_of_ne _ _ hk, Table.get?_insert_of_ne _ _ hk]
      exact h.elsewhere k (hkey ▸ hk)
  spoilt hkey := {
    unreadable := h.unreadable
    spoilt := (Table.get?_insert_of_ne _ _ (Ne.symm hkey)).trans h.spoilt
    missing := (Table.get?_insert_of_ne _ _ (Ne.symm hkey)).trans h.missing
    elsewhere := by
      intro k hk
      by_cases hk' : k = slotKey e.slot
      · subst hk'
        exact (Table.get?_insert_self _ _ _).trans (Table.get?_insert_self _ _ _).symm
      · exact ((Table.get?_insert_of_ne _ _ hk').trans (h.elsewhere k hk)).trans
          (Table.get?_insert_of_ne _ _ hk').symm }

theorem write_of_slotKey {e : Entry} (hkey : slotKey e.slot = key) :
    t.write e = .ok (t.put e) := by
  refine write_ok_iff.2 ⟨fun old hold => ?_, rfl⟩
  rw [marker?, hkey, h.spoilt] at hold
  cases h.unreadable.symm.trans hold

theorem write (e : Entry) :
    (∃ why, t.write e = .error why ∧ t'.write e = .error why) ∨
      ∃ u u', t.write e = .ok u ∧ t'.write e = .ok u' ∧
        u.AlikeBut key bytes (slotKey e.slot = key) u' := by
  have hput := h.put e
  rw [t.write_eq, t'.write_eq, ← h.marker?_eq]
  cases t.marker? e.slot with
  | none => exact .inr ⟨_, _, rfl, rfl, hput⟩
  | some old =>
    by_cases hlt : e.mark.sequence < old.mark.sequence
    · exact .inl ⟨_, if_pos hlt, if_pos hlt⟩
    · exact .inr ⟨_, _, if_neg hlt, if_neg hlt, hput⟩

theorem writeAll (es : List Entry) :
    (∃ why, writeAll es t = .error why ∧ writeAll es t' = .error why) ∨
      ∃ u u', writeAll es t = .ok u ∧ writeAll es t' = .ok u' ∧
        u.AlikeBut key bytes (∃ e ∈ es, slotKey e.slot = key) u' := by
  induction es generalizing t t' with
  | nil =>
    refine .inr ⟨t, t', rfl, rfl, h.alikeBut ?_⟩
    rintro ⟨e, he, -⟩
    cases he
  | cons e es ih =>
    rw [ByteTable.writeAll, ByteTable.writeAll]
    rcases h.write e with ⟨why, hw, hw'⟩ | ⟨u, u', hw, hw', halike⟩
    · rw [hw, hw']
      exact .inl ⟨why, rfl, rfl⟩
    · rw [hw, hw']
      by_cases hkey : slotKey e.slot = key
      · -- From here on there is one table only.
        cases halike.equal hkey
        dsimp only
        cases ByteTable.writeAll es u with
        | error why => exact .inl ⟨why, rfl, rfl⟩
        | ok w =>
          refine .inr ⟨w, w, rfl, rfl, fun _ => rfl, fun hr => ?_⟩
          exact absurd ⟨e, List.mem_cons_self, hkey⟩ hr
      · rcases ih (halike.spoilt hkey) with herror | ⟨w, w', hrest, hrest', hrw⟩
        · exact .inl herror
        · refine .inr ⟨w, w', hrest, hrest', hrw.congr ?_⟩
          rw [List.exists_mem_cons_iff, or_iff_right hkey]

theorem storeAll (es : List Entry) :
    (ByteTable.storeAll es t).1 = (ByteTable.storeAll es t').1 ∧
      (ByteTable.storeAll es t).2.AlikeBut key bytes
        ((∃ e ∈ es, slotKey e.slot = key) ∧ (ByteTable.storeAll es t).1 = .ok ())
        (ByteTable.storeAll es t').2 := by
  unfold ByteTable.storeAll
  rcases h.writeAll es with ⟨why, hw, hw'⟩ | ⟨u, u', hw, hw', halike⟩
  · rw [hw, hw']
    refine ⟨rfl, h.alikeBut ?_⟩
    rintro ⟨-, hok⟩
    cases hok
  · rw [hw, hw']
    exact ⟨rfl, halike.congr ⟨fun hr => ⟨hr, rfl⟩, And.left⟩⟩

/-! ### Every call -/

theorem stored (es : List Entry) {c : StorageCall}
    (hc : ∀ u : ByteTable, c.make u = StorageCall.reply (fun _ => .done) (u.storeAll es))
    (hwrites : c.Writes key ↔ ∃ e ∈ es, slotKey e.slot = key) :
    (c.make t).1 = (c.make t').1 ∧
      (c.make t).2.AlikeBut key bytes (c.Writes key ∧ (c.make t).1.isOk = true)
        (c.make t').2 := by
  obtain ⟨hreply, halike⟩ := h.storeAll es
  rw [hc, hc]
  refine ⟨congrArg (Except.map _) hreply, halike.congr (and_congr hwrites.symm ?_)⟩
  show _ ↔ ((t.storeAll es).1.map _).isOk = true
  cases (t.storeAll es).1 with
  | error why => exact ⟨nofun, nofun⟩
  | ok a => exact ⟨fun _ => rfl, fun _ => rfl⟩

theorem make {c : StorageCall} (hc : c.Spares key) :
    (c.make t).1 = (c.make t').1 ∧
      (c.make t).2.AlikeBut key bytes (c.Writes key ∧ (c.make t).1.isOk = true)
        (c.make t').2 := by
  cases c with
  | store e => exact h.stored [e] (fun _ => rfl) (by simp [StorageCall.Writes])
  | storeAll es => exact h.stored es (fun _ => rfl) Iff.rfl
  | load slot =>
    have hreply : (ByteTable.load slot t).1 = (ByteTable.load slot t').1 := by
      rw [load_eq, load_eq, h.elsewhere _ hc]
    have hleft : ∀ u : ByteTable, (ByteTable.load slot u).2 = u := fun u => by rw [load_eq]
    refine ⟨congrArg (Except.map StorageReply.entry) hreply, ?_⟩
    show (ByteTable.load slot t).2.AlikeBut key bytes _ (ByteTable.load slot t').2
    rw [hleft, hleft]
    exact h.alikeBut fun hr => hr.1
  | loadRoom room =>
    exact ⟨congrArg (Except.ok ∘ StorageReply.entries) (h.decoded_scan_eq _),
      h.alikeBut fun hr => hr.1⟩
  | list =>
    exact ⟨congrArg (Except.ok ∘ StorageReply.entries) h.entries_eq, h.alikeBut fun hr => hr.1⟩
  | forget room => exact absurd hc id

/-- Calls that do not ask for the spoilt row are answered alike, one after the other. -/
theorem makeAll {cs : List StorageCall} (hcs : ∀ c ∈ cs, c.Spares key) :
    (StorageCall.makeAll cs t).1 = (StorageCall.makeAll cs t').1 ∧
      (StorageCall.makeAll cs t).2.AlikeBut key bytes
        (StorageCall.Rewritten key cs (StorageCall.makeAll cs t).1)
        (StorageCall.makeAll cs t').2 := by
  induction cs generalizing t t' with
  | nil =>
    refine ⟨rfl, h.alikeBut ?_⟩
    rintro ⟨p, hp, -⟩
    cases hp
  | cons c cs ih =>
    obtain ⟨hreply, halike⟩ := h.make (hcs c List.mem_cons_self)
    have hrest : ∀ c ∈ cs, c.Spares key := fun c hc => hcs c (List.mem_cons_of_mem _ hc)
    simp only [StorageCall.makeAll]
    by_cases hr : c.Writes key ∧ (c.make t).1.isOk = true
    · -- The bytes are gone: from here on there is one table only.
      rw [hreply, halike.equal hr, ← hreply]
      exact ⟨rfl, fun _ => rfl, fun hnot => absurd (StorageCall.rewritten_cons.2 (.inl hr)) hnot⟩
    · obtain ⟨hreplies, hfinal⟩ := ih (halike.spoilt hr) hrest
      exact ⟨congrArg₂ List.cons hreply hreplies,
        hfinal.congr (StorageCall.rewritten_cons.trans (or_iff_right hr)).symm⟩

/-- While the bytes stand, a marker of their slot is stored whatever its sequence, and then nothing
is left of them. -/
theorem overwritten {e : Entry} (hkey : slotKey e.slot = key) :
    (Backing.store e t).1 = .ok () ∧ Backing.store e t = Backing.store e t' := by
  have hstore : ∀ {u : ByteTable}, u.write e = .ok (u.put e) →
      Backing.store e u = (.ok (), u.put e) := by
    intro u hu
    show ByteTable.storeAll [e] u = _
    rw [ByteTable.storeAll, ByteTable.writeAll, hu]
    rfl
  have hmissing : t'.write e = .ok (t'.put e) := by
    rw [t'.write_eq, ← h.marker?_eq, marker?, hkey, h.spoilt, Option.bind_some, h.unreadable]
  rw [hstore (h.write_of_slotKey hkey), hstore hmissing, (h.put e).equal hkey]
  exact ⟨rfl, rfl⟩

end SpoiltAt

/-- Bytes that are no marker change no answer to anyone but those who ask for their slot, and they
are gone with the first write of that slot, which no sequence is too low for. -/
theorem spoilt_row_harms_no_other {t t' : ByteTable} {slot : Slot} {bytes : List UInt8}
    (h : t.SpoiltAt (slotKey slot) bytes t') {cs : List StorageCall}
    (hcs : ∀ c ∈ cs, c.Spares (slotKey slot)) :
    ∃ replies u u', StorageCall.makeAll cs t = (replies, u) ∧
      StorageCall.makeAll cs t' = (replies, u') ∧
      (∀ k, k ≠ slotKey slot → u.rows.get? k = u'.rows.get? k) ∧
      (StorageCall.Rewritten (slotKey slot) cs replies → u = u') ∧
      (¬ StorageCall.Rewritten (slotKey slot) cs replies →
        u.SpoiltAt (slotKey slot) bytes u' ∧
          ∀ mark : Mark, (Backing.store ⟨slot, mark⟩ u).1 = .ok () ∧
            Backing.store ⟨slot, mark⟩ u = Backing.store ⟨slot, mark⟩ u') ∧
      (∃ marks, (MarkerBook.openOver u).1 = .ok ⟨u, marks, .empty⟩ ∧
        (MarkerBook.openOver u').1 = .ok ⟨u', marks, .empty⟩) ∧
      ((slotKey slot).length < 1 <<< 32 → ∀ other ≠ slot, slotKey other ≠ slotKey slot) := by
  obtain ⟨hreplies, halike⟩ := h.makeAll hcs
  refine ⟨_, _, (StorageCall.makeAll cs t').2, rfl, Prod.ext hreplies.symm rfl,
    fun k hk => halike.elsewhere hk, halike.equal, fun hr => ?_, ⟨_, rfl, ?_⟩,
    fun hshort other => slotKey_ne_of_short hshort⟩
  · have hleft := halike.spoilt hr
    exact ⟨hleft, fun mark => hleft.overwritten rfl⟩
  · have hentries :
        (StorageCall.makeAll cs t).2.entries = (StorageCall.makeAll cs t').2.entries := by
      by_cases hr : StorageCall.Rewritten (slotKey slot) cs (StorageCall.makeAll cs t).1
      · rw [halike.equal hr]
      · exact (halike.spoilt hr).entries_eq
    show Except.ok (MarkerBook.mk _ (MarkerBook.marksOf _) _) = _
    rw [← hentries]

/-- A batch that writes over the bytes and is undone, some reading, and a marker at sequence zero
that takes their place. -/
theorem spoilt_row_harms_no_other_until_rewritten :
    let slot : Slot := ⟨.ofRoom ⟨"!r"⟩, .shared⟩
    let other : Slot := ⟨.ofThread ⟨"!r"⟩ ⟨"$1"⟩, .shared⟩
    let t' := ByteTable.empty.put ⟨other, ⟨⟨"$7"⟩, 7, 0⟩⟩
    let t : ByteTable := t'.putRows [(slotKey slot, [0xff, 0x00])]
    let undone : List StorageCall :=
      [.storeAll [⟨slot, ⟨⟨"$3"⟩, 3, 0⟩⟩, ⟨other, ⟨⟨"$2"⟩, 2, 0⟩⟩], .list, .loadRoom ⟨"!r"⟩,
        .load other]
    let rewritten : List StorageCall := undone ++ [.store ⟨slot, ⟨⟨"$0"⟩, 0, 0⟩⟩, .list]
    t.SpoiltAt (slotKey slot) [0xff, 0x00] t' ∧
      (StorageCall.makeAll undone t).2.SpoiltAt (slotKey slot) [0xff, 0x00]
        (StorageCall.makeAll undone t').2 ∧
      StorageCall.makeAll rewritten t = StorageCall.makeAll rewritten t' := by
  intro slot other t' t undone rewritten
  have h : t.SpoiltAt (slotKey slot) [0xff, 0x00] t' := {
    unreadable := by decide +kernel
    spoilt := by decide +kernel
    missing := by decide +kernel
    elsewhere := fun k hk => Table.get?_insert_of_ne _ _ hk }
  have hundone : ∀ c ∈ undone, c.Spares (slotKey slot) := by decide +kernel
  have hrewritten : ∀ c ∈ rewritten, c.Spares (slotKey slot) := by decide +kernel
  obtain ⟨replies, u, u', hu, hu', -, -, hleft, -⟩ := spoilt_row_harms_no_other h hundone
  obtain ⟨replies', v, v', hv, hv', -, hequal, -⟩ := spoilt_row_harms_no_other h hrewritten
  refine ⟨h, ?_, ?_⟩
  · have hreplies : replies = (StorageCall.makeAll undone t).1 := by rw [hu]
    rw [hu, hu']
    refine (hleft ?_).1
    rw [hreplies]
    decide +kernel
  · have hreplies : replies' = (StorageCall.makeAll rewritten t).1 := by rw [hv]
    rw [hv, hv', hequal ?_]
    rw [hreplies]
    decide +kernel

end ByteTable

end ReadTracking
