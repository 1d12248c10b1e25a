import ReadTracking.Backing.Depot
import ReadTracking.Proofs.Encoding
import ReadTracking.Proofs.SlotKeys
import ReadTracking.Proofs.StorageLaws
import ReadTracking.Proofs.Tables

/-!
# A byte table is a map from slots to markers

A byte table that was begun empty holds, under the key of every slot, the marker that a plain map
has for the slot, and nothing else.  So it answers every call as the map does, however often it is
opened again.  Faults around it fail some of the calls and change nothing else.
-/

set_option autoImplicit false

namespace ReadTracking

open Backing KeyOrder

/-! ## The plain map -/

namespace MarkMap

def put (m : MarkMap) (e : Entry) : Except StorageError MarkMap :=
  match m.get? e.slot with
  | some old =>
    if e.mark.sequence < old.sequence then .error (.regression old.sequence e.mark.sequence)
    else .ok (m.insert e.slot e.mark)
  | none => .ok (m.insert e.slot e.mark)

def putAll : List Entry → MarkMap → Except StorageError MarkMap
  | [], m => .ok m
  | e :: es, m => (m.put e).bind (putAll es)

def listed (m : MarkMap) : List Entry :=
  (m.entries.map fun p => (⟨p.1, p.2⟩ : Entry)).mergeSort
    fun a b => !decide (before (slotKey b.slot) (slotKey a.slot))

variable {m : MarkMap} {e : Entry}

theorem mem_listed : e ∈ m.listed ↔ m.get? e.slot = some e.mark := by
  rw [listed, List.mem_mergeSort, List.mem_map, Table.get?_eq_some_iff]
  constructor
  · rintro ⟨p, hp, rfl⟩
    exact hp
  · exact fun h => ⟨_, h, rfl⟩

/-- Where the keys of slots tell them apart, each entry is listed once, in rising order. -/
theorem rising_listed (hm : ∀ {slot mark}, m.get? slot = some mark → slot.scope.room.Fits) :
    m.listed.Pairwise fun a b => before (slotKey a.slot) (slotKey b.slot) := by
  have hdistinct : m.listed.Pairwise fun a b => a.slot ≠ b.slot := by
    have hslots : (m.entries.map fun p => (⟨p.1, p.2⟩ : Entry)).Pairwise
        fun a b => a.slot ≠ b.slot := by
      rw [List.pairwise_map]
      exact m.rising.imp fun h => ne_of_before h
    exact (List.mergeSort_perm _ _).symm.pairwise hslots fun h => h.symm
  refine ((Table.pairwise_mergeSort_key _ _).and hdistinct).imp_of_mem fun {a b} ha hb h => ?_
  by_cases hab : before (slotKey a.slot) (slotKey b.slot)
  · exact hab
  · exact absurd (slotKey_inj (hm (mem_listed.1 ha)) (hm (mem_listed.1 hb)) (connected hab h.1))
      h.2

end MarkMap

/-! ## Calls -/

inductive StorageCall where
  | store (e : Entry)
  | storeAll (es : List Entry)
  | load (slot : Slot)
  | loadRoom (room : RoomId)
  | list
  | forget (room : RoomId)
  deriving DecidableEq, Repr

inductive StorageReply where
  | done
  | entry (e : Option Entry)
  | entries (es : List Entry)
  | count (n : Nat)
  deriving DecidableEq, Repr

namespace StorageCall

def name : StorageCall → String
  | store _ => "store_marker"
  | storeAll _ => "store_markers"
  | load _ => "load_marker"
  | loadRoom _ => "load_room_markers"
  | list => "list_markers"
  | forget _ => "forget_room"

def Within (K : Capacity) : StorageCall → Prop
  | store e => K.entry e
  | storeAll es => ∀ e ∈ es, K.entry e
  | load slot => K.scope slot.scope
  | loadRoom room => K.room room
  | list => True
  | forget room => K.room room

def reply {α σ : Type} (f : α → StorageReply) (c : Called α σ) : Called StorageReply σ :=
  (c.1.map f, c.2)

def make {σ : Type} [Backing σ] : StorageCall → σ → Called StorageReply σ
  | store e, s => reply (fun _ => .done) (Backing.store e s)
  | storeAll es, s => reply (fun _ => .done) (Backing.storeAll es s)
  | load slot, s => reply .entry (Backing.load slot s)
  | loadRoom room, s => reply .entries (Backing.loadRoom room s)
  | list, s => reply .entries (Backing.list s)
  | forget room, s => reply .count (Backing.forget room s)

def stored (es : List Entry) (m : MarkMap) : Called StorageReply MarkMap :=
  match m.putAll es with
  | .ok m' => (.ok .done, m')
  | .error why => (.error why, m)

def answer : StorageCall → MarkMap → Called StorageReply MarkMap
  | store e, m => stored [e] m
  | storeAll es, m => stored es m
  | load slot, m => (.ok (.entry ((m.get? slot).map (⟨slot, ·⟩))), m)
  | loadRoom room, m => (.ok (.entries (m.listed.filter (·.room == room))), m)
  | list, m => (.ok (.entries m.listed), m)
  | forget room, m => (.ok (.count (m.listed.countP (·.room == room))), m.without room)

end StorageCall

/-! ## What a byte table holds -/

namespace ByteTable

/-- The rooms, events and numbers that a byte table can hold: the length of a room in 32 bits, and
numbers and the lengths of other texts in 64. -/
def capacity : Capacity where
  room := RoomId.Fits
  event event := (utf8 event.text).length < Cbor.headBound
  number n := n < Cbor.headBound

def row (e : Entry) : List UInt8 × List UInt8 := (slotKey e.slot, Cbor.writeMarker e)

structure Holds (t : ByteTable) (m : MarkMap) : Prop where
  fits : ∀ {slot mark}, m.get? slot = some mark → capacity.entry ⟨slot, mark⟩
  rows : ∀ {key value}, t.rows.get? key = some value ↔
    ∃ e, m.get? e.slot = some e.mark ∧ (key, value) = row e

variable {t : ByteTable} {m : MarkMap} {e : Entry}

theorem encodable (h : capacity.entry e) : Cbor.Encodable e where
  room := Nat.lt_trans h.1.1 (by decide)
  thread := h.1.2
  event := h.2.1
  sequence := h.2.2.1
  stamp := h.2.2.2

theorem readMarker_writeMarker (h : capacity.entry e) :
    Cbor.readMarker (Cbor.writeMarker e) = some e := by
  have hread := Cbor.readMarker_writeMarker (encodable h) []
  rwa [List.append_nil] at hread

theorem holds_empty : empty.Holds .empty where
  fits h := by cases h
  rows := ⟨fun h => (by cases h), fun ⟨_, h, _⟩ => (by cases h)⟩

theorem Holds.roomFits (h : t.Holds m) {slot : Slot} {mark : Mark} (hm : m.get? slot = some mark) :
    slot.scope.room.Fits :=
  (h.fits hm).1.1

theorem Holds.get?_slotKey (h : t.Holds m) {slot : Slot} (hs : slot.scope.room.Fits) :
    t.rows.get? (slotKey slot) =
      (m.get? slot).map fun mark => Cbor.writeMarker ⟨slot, mark⟩ := by
  refine Option.ext fun value => ?_
  rw [h.rows, Option.map_eq_some_iff]
  constructor
  · rintro ⟨e, hm, hrow⟩
    obtain ⟨hkey, rfl⟩ := Prod.mk.inj hrow
    obtain rfl := slotKey_inj hs (h.roomFits hm) hkey
    exact ⟨e.mark, hm, rfl⟩
  · rintro ⟨mark, hm, rfl⟩
    exact ⟨⟨slot, mark⟩, hm, rfl⟩

/-! ## Writes -/

theorem Holds.insert (h : t.Holds m) (he : capacity.entry e) :
    (⟨t.rows.insert (slotKey e.slot) (Cbor.writeMarker e)⟩ : ByteTable).Holds
      (m.insert e.slot e.mark) where
  fits {slot mark} hm := by
    by_cases hs : slot = e.slot
    · subst hs
      rw [Table.get?_insert_self] at hm
      cases hm
      exact he
    · rw [Table.get?_insert_of_ne _ _ hs] at hm
      exact h.fits hm
  rows {key value} := by
    by_cases hk : key = slotKey e.slot
    · subst hk
      rw [Table.get?_insert_self]
      constructor
      · intro hv
        cases hv
        exact ⟨e, Table.get?_insert_self _ _ _, rfl⟩
      · -- No other slot has this key.
        rintro ⟨e', hm, hrow⟩
        obtain ⟨hkey, rfl⟩ := Prod.mk.inj hrow
        by_cases hs : e'.slot = e.slot
        · rw [hs, Table.get?_insert_self] at hm
          obtain ⟨slot', mark'⟩ := e'
          cases hs
          cases hm
          rfl
        · rw [Table.get?_insert_of_ne _ _ hs] at hm
          exact absurd (slotKey_inj he.1.1 (h.roomFits hm) hkey).symm hs
    · rw [Table.get?_insert_of_ne _ _ hk, h.rows]
      refine exists_congr fun e' => and_congr_left fun hrow => ?_
      have hs : e'.slot ≠ e.slot := by
        intro hs
        obtain ⟨rfl, -⟩ := Prod.mk.inj hrow
        exact hk (congrArg slotKey hs)
      rw [Table.get?_insert_of_ne _ _ hs]

theorem Holds.write (h : t.Holds m) (he : capacity.entry e) :
    (∃ t' m', t.write e = .ok t' ∧ m.put e = .ok m' ∧ t'.Holds m') ∨
      ∃ why, t.write e = .error why ∧ m.put e = .error why := by
  have hrow := h.get?_slotKey he.1.1
  unfold ByteTable.write MarkMap.put
  cases hm : m.get? e.slot with
  | none =>
    rw [hm] at hrow
    exact .inl ⟨_, _, by simp only [hrow, Option.map_none, Option.bind_none], rfl, h.insert he⟩
  | some old =>
    rw [hm] at hrow
    have hread := readMarker_writeMarker (h.fits hm)
    simp only [hrow, Option.map_some, Option.bind_some, hread]
    by_cases hlt : e.mark.sequence < old.sequence
    · exact .inr ⟨_, if_pos hlt, if_pos hlt⟩
    · exact .inl ⟨_, _, if_neg hlt, if_neg hlt, h.insert he⟩

theorem Holds.writeAll (h : t.Holds m) {es : List Entry} (hes : ∀ e ∈ es, capacity.entry e) :
    (∃ t' m', writeAll es t = .ok t' ∧ m.putAll es = .ok m' ∧ t'.Holds m') ∨
      ∃ why, writeAll es t = .error why ∧ m.putAll es = .error why := by
  induction es generalizing t m with
  | nil => exact .inl ⟨t, m, rfl, rfl, h⟩
  | cons e es ih =>
    rw [ByteTable.writeAll, MarkMap.putAll]
    rcases h.write (hes e List.mem_cons_self) with ⟨t₁, m₁, hw, hp, h₁⟩ | ⟨why, hw, hp⟩
    · rw [hw, hp]
      exact ih h₁ fun e he => hes e (List.mem_cons_of_mem _ he)
    · rw [hw, hp]
      exact .inr ⟨why, rfl, rfl⟩

/-! ## Listings -/

theorem Holds.rows_entries (h : t.Holds m) : t.rows.entries = m.listed.map row := by
  refine Table.eq_of_mem_iff t.rows.rising ?_ fun ⟨key, value⟩ => ?_
  · rw [List.pairwise_map]
    exact MarkMap.rising_listed h.roomFits
  · rw [← Table.get?_eq_some_iff, h.rows, List.mem_map]
    exact exists_congr fun e => and_congr MarkMap.mem_listed.symm eq_comm

theorem decoded_map_row {es : List Entry} (hes : ∀ e ∈ es, capacity.entry e) :
    decoded (es.map row) = es := by
  induction es with
  | nil => rfl
  | cons e es ih =>
    have hread : Cbor.readMarker (row e).2 = some e :=
      readMarker_writeMarker (hes e List.mem_cons_self)
    have hrest : decoded (es.map row) = es := ih fun e he => hes e (List.mem_cons_of_mem _ he)
    simp only [decoded] at hrest
    simp only [List.map_cons, decoded, List.filterMap_cons, hread, hrest]

theorem Holds.entry (h : t.Holds m) (he : e ∈ m.listed) : capacity.entry e :=
  h.fits (MarkMap.mem_listed.1 he)

theorem Holds.entries_eq (h : t.Holds m) : t.entries = m.listed := by
  rw [ByteTable.entries, h.rows_entries, decoded_map_row fun e he => h.entry he]

theorem Holds.scan_roomKey (h : t.Holds m) {room : RoomId} (hroom : room.Fits) :
    t.scan (roomKey room) = (m.listed.filter (·.room == room)).map row := by
  rw [scan, takeWhile_dropWhile_isPrefixOf t.rows.rising, h.rows_entries, List.filter_map]
  refine congrArg _ (List.filter_congr fun e he => ?_)
  exact roomKey_isPrefixOf_slotKey hroom (h.entry he).1.1

theorem Holds.decoded_scan (h : t.Holds m) {room : RoomId} (hroom : room.Fits) :
    decoded (t.scan (roomKey room)) = m.listed.filter (·.room == room) := by
  rw [h.scan_roomKey hroom]
  exact decoded_map_row fun e he => h.entry (List.mem_filter.1 he).1

theorem Holds.erase (h : t.Holds m) {room : RoomId} (hroom : room.Fits) :
    (⟨((t.scan (roomKey room)).map (·.1)).foldl Table.erase t.rows⟩ : ByteTable).Holds
      (m.without room) := by
  have hwithout : ∀ {slot mark}, (m.without room).get? slot = some mark ↔
      m.get? slot = some mark ∧ slot.scope.room ≠ room := by
    intro slot mark
    rw [MarkMap.without, Table.get?_filter, Option.filter_eq_some_iff, bne_iff_ne]
  have hkeys : ∀ {e : Entry}, m.get? e.slot = some e.mark →
      (slotKey e.slot ∈ (t.scan (roomKey room)).map (·.1) ↔ e.slot.scope.room = room) := by
    intro e hm
    rw [h.scan_roomKey hroom, List.map_map, List.mem_map]
    constructor
    · rintro ⟨e', he', hkey⟩
      obtain ⟨hlisted, hr⟩ := List.mem_filter.1 he'
      have hm' := MarkMap.mem_listed.1 hlisted
      rw [← slotKey_inj (h.roomFits hm') (h.roomFits hm) hkey]
      exact beq_iff_eq.1 hr
    · exact fun hr => ⟨e, List.mem_filter.2 ⟨MarkMap.mem_listed.2 hm, beq_iff_eq.2 hr⟩, rfl⟩
  refine ⟨fun hm => h.fits (hwithout.1 hm).1, fun {key value} => ?_⟩
  rw [Table.get?_foldl_erase_eq_some_iff, h.rows]
  constructor
  · rintro ⟨hkey, e, hm, hrow⟩
    refine ⟨e, hwithout.2 ⟨hm, fun hr => hkey ?_⟩, hrow⟩
    obtain ⟨rfl, -⟩ := Prod.mk.inj hrow
    exact (hkeys hm).2 hr
  · rintro ⟨e, hm, hrow⟩
    obtain ⟨hm, hr⟩ := hwithout.1 hm
    refine ⟨fun hkey => hr ?_, e, hm, hrow⟩
    obtain ⟨rfl, -⟩ := Prod.mk.inj hrow
    exact (hkeys hm).1 hkey

/-! ## Every call -/

theorem Holds.stored (h : t.Holds m) {es : List Entry} (hes : ∀ e ∈ es, capacity.entry e) :
    (StorageCall.reply (fun _ => .done) (t.storeAll es)).1 = (StorageCall.stored es m).1 ∧
      (t.storeAll es).2.Holds (StorageCall.stored es m).2 := by
  unfold ByteTable.storeAll StorageCall.stored
  rcases h.writeAll hes with ⟨t', m', hw, hp, h'⟩ | ⟨why, hw, hp⟩
  · rw [hw, hp]
    exact ⟨rfl, h'⟩
  · rw [hw, hp]
    exact ⟨rfl, h⟩

/-- A byte table answers a call as the map whose markers it holds. -/
theorem Holds.make (h : t.Holds m) {c : StorageCall} (hc : c.Within capacity) :
    (c.make t).1 = (c.answer m).1 ∧ (c.make t).2.Holds (c.answer m).2 := by
  cases c with
  | store e =>
    refine h.stored fun e' he' => ?_
    rw [List.mem_singleton.1 he']
    exact hc
  | storeAll es => exact h.stored hc
  | load slot =>
    have hload : ByteTable.load slot t = (.ok ((m.get? slot).map (⟨slot, ·⟩)), t) := by
      rw [ByteTable.load, h.get?_slotKey hc.1]
      cases hm : m.get? slot with
      | none => rfl
      | some mark => simp only [Option.map_some, readMarker_writeMarker (h.fits hm)]
    refine ⟨?_, ?_⟩
    · show (ByteTable.load slot t).1.map StorageReply.entry = _
      rw [hload]
      rfl
    · show (ByteTable.load slot t).2.Holds m
      rw [hload]
      exact h
  | loadRoom room =>
    exact ⟨congrArg (Except.ok ∘ StorageReply.entries) (h.decoded_scan hc), h⟩
  | list => exact ⟨congrArg (Except.ok ∘ StorageReply.entries) h.entries_eq, h⟩
  | forget room =>
    have hcount : ((t.scan (roomKey room)).map (·.1)).length =
        m.listed.countP (·.room == room) := by
      rw [List.length_map, h.scan_roomKey hc, List.length_map, List.countP_eq_length_filter]
    exact ⟨congrArg (Except.ok ∘ StorageReply.count) hcount, h.erase hc⟩

end ByteTable

/-! ## Faults and openings -/

theorem Faulty.call_eq {σ α : Type} (name : String) (act : σ → Called α σ) (f : Faulty σ) :
    call name act f = if f.roll.2 then (.error (injected name), f.roll.1)
      else ((act f.inner).1, { f.roll.1 with inner := (act f.inner).2 }) := by
  have hinner : f.roll.1.inner = f.inner := rfl
  unfold call
  rcases hroll : f.roll with ⟨f', failed⟩
  rw [hroll] at hinner
  cases failed with
  | true => rfl
  | false =>
    dsimp only at hinner ⊢
    rw [hinner]
    rfl

namespace StorageCall

theorem reply_call {σ α : Type} (f : α → StorageReply) (name : String) (act : σ → Called α σ)
    (s : Faulty σ) :
    reply f (Faulty.call name act s) = Faulty.call name (fun s => reply f (act s)) s := by
  unfold Faulty.call
  split <;> rfl

variable {σ : Type} [Backing σ] (c : StorageCall)

theorem make_faulty (s : Faulty σ) : c.make s = Faulty.call c.name c.make s := by
  cases c <;> exact reply_call _ _ _ s

theorem make_bytes (t : ByteTable) :
    c.make (Depot.bytes t) = ((c.make t).1, .bytes (c.make t).2) := by
  cases c <;> rfl

theorem make_faultyBytes (seed : Nat) (f : Faulty ByteTable) :
    c.make (Depot.faultyBytes seed f) = ((c.make f).1, .faultyBytes seed (c.make f).2) := by
  cases c <;> rfl

end StorageCall

inductive StorageStep where
  | call (c : StorageCall)
  | reopen
  deriving DecidableEq, Repr

def StorageStep.Within (K : Capacity) : StorageStep → Prop
  | call c => c.Within K
  | reopen => True

namespace Depot

def failsNext : Depot → Bool
  | faultyShelf f => f.roll.2
  | faultyBytes _ f => f.roll.2
  | shelf _ | bytes _ | rationed _ => false

/-- A storage of bytes goes through steps as a map does.  A call that chance fails is an input
error and leaves all bytes as they are.  Every other call answers as the map, and goes on with what
the map is then. -/
def Refines : Depot → MarkMap → List StorageStep → Prop
  | _, _, [] => True
  | d, m, .reopen :: steps => d.reopened.Refines m steps
  | d, m, .call c :: steps =>
    if d.failsNext then
      (c.make d).1 = .error (Faulty.injected c.name) ∧
        (c.make d).2.byteTable? = d.byteTable? ∧ (c.make d).2.Refines m steps
    else (c.make d).1 = (c.answer m).1 ∧ (c.make d).2.Refines (c.answer m).2 steps

variable {d : Depot} {t : ByteTable} {m : MarkMap}

/-- One call to a storage of bytes that holds the markers of a map. -/
theorem make_cases (hd : d.byteTable? = some t) (h : t.Holds m) {c : StorageCall}
    (hc : c.Within ByteTable.capacity) :
    if d.failsNext then
      (c.make d).1 = .error (Faulty.injected c.name) ∧ (c.make d).2.byteTable? = some t
    else (c.make d).1 = (c.answer m).1 ∧
      ∃ t', (c.make d).2.byteTable? = some t' ∧ t'.Holds (c.answer m).2 := by
  obtain ⟨hreply, hholds⟩ := h.make hc
  cases d with
  | bytes t =>
    cases hd
    rw [c.make_bytes]
    exact ⟨hreply, _, rfl, hholds⟩
  | faultyBytes seed f =>
    cases hd
    rw [c.make_faultyBytes, c.make_faulty, Faulty.call_eq]
    show if f.roll.2 = true then _ else _
    split
    next => exact ⟨rfl, rfl⟩
    next => exact ⟨hreply, _, rfl, hholds⟩
  | shelf _ | faultyShelf _ | rationed _ => cases hd

theorem byteTable?_reopened (d : Depot) : d.reopened.byteTable? = d.byteTable? := by
  cases d <;> rfl

theorem refines_of_holds (hd : d.byteTable? = some t) (h : t.Holds m) {steps : List StorageStep}
    (hsteps : ∀ step ∈ steps, step.Within ByteTable.capacity) : d.Refines m steps := by
  induction steps generalizing d t m with
  | nil => trivial
  | cons step steps ih =>
    have hrest : ∀ step ∈ steps, step.Within ByteTable.capacity :=
      fun step hs => hsteps step (List.mem_cons_of_mem _ hs)
    cases step with
    | reopen => exact ih ((byteTable?_reopened d).trans hd) h hrest
    | call c =>
      have hmake := make_cases hd h (hsteps _ List.mem_cons_self)
      rw [Refines]
      split at hmake
      next hfails =>
        obtain ⟨hreply, hd'⟩ := hmake
        rw [if_pos hfails]
        exact ⟨hreply, hd'.trans hd.symm, ih hd' h hrest⟩
      next hfails =>
        obtain ⟨hreply, t', hd', h'⟩ := hmake
        rw [if_neg hfails]
        exact ⟨hreply, ih hd' h' hrest⟩

/-- A storage of bytes that begins empty refines a map that begins empty, over all steps that ask
only for what it can hold, whatever calls chance fails. -/
theorem byteTable_refines_map (hd : d.byteTable? = some .empty) {steps : List StorageStep}
    (hsteps : ∀ step ∈ steps, step.Within ByteTable.capacity) : d.Refines .empty steps :=
  refines_of_holds hd ByteTable.holds_empty hsteps

/-- Rooms of which one name begins the other, a batch that is turned down for an entry of its own,
and a call in two that fails. -/
theorem byteTable_refines_map_of_rooms :
    let ab : RoomId := ⟨"!ab"⟩
    let abc : RoomId := ⟨"!abc"⟩
    let read (room : RoomId) (thread : Option EventId) (q : Nat) : Entry :=
      ⟨⟨⟨room, thread⟩, .shared⟩, ⟨⟨"$e"⟩, q, 0⟩⟩
    let steps : List StorageStep := [.call (.store (read ab none 7)),
      .call (.store (read ab none 6)),
      .call (.storeAll [read abc none 3, read abc (some ⟨"$t"⟩) 5, read abc none 2]), .reopen,
      .call (.store (read abc (some ⟨"$t"⟩) 0)), .call (.loadRoom ab), .call (.forget ab),
      .call .list]
    (bytes .empty).Refines .empty steps ∧
      (faultyBytes 3 (.around .empty (1 <<< 63) 3)).Refines .empty steps := by
  intro ab abc read steps
  have hzero : 0 < Cbor.headBound := by decide
  have hab : ab.Fits := by decide +kernel
  have habc : abc.Fits := by decide +kernel
  have hthread : ∀ root : EventId, some (⟨"$t"⟩ : EventId) = some root →
      (utf8 root.text).length < Cbor.headBound := by
    rintro root ⟨⟩
    decide +kernel
  have hevent : (utf8 "$e").length < Cbor.headBound := by decide +kernel
  have hmain : ∀ {room : RoomId} {q : Nat}, room.Fits → q < 8 →
      ByteTable.capacity.entry (read room none q) := fun hroom hq =>
    ⟨⟨hroom, fun _ h => (by cases h)⟩, hevent, Nat.lt_trans hq (by decide), hzero⟩
  have hreply : ∀ {q : Nat}, q < 8 → ByteTable.capacity.entry (read abc (some ⟨"$t"⟩) q) :=
    fun hq => ⟨⟨habc, hthread⟩, hevent, Nat.lt_trans hq (by decide), hzero⟩
  have hsteps : ∀ step ∈ steps, step.Within ByteTable.capacity := by
    simp only [steps, List.forall_mem_cons, StorageStep.Within, StorageCall.Within]
    exact ⟨hmain hab (by decide), hmain hab (by decide),
      ⟨hmain habc (by decide), hreply (by decide), hmain habc (by decide), fun _ h => (by cases h)⟩,
      trivial, hreply (by decide), hab, hab, trivial, fun _ h => (by cases h)⟩
  exact ⟨byteTable_refines_map rfl hsteps, byteTable_refines_map rfl hsteps⟩

end Depot

end ReadTracking
