import ReadTracking.Proofs.ByteTables

/-!
# Batches

A batch stands for its writes one after the other, except that a write that is refused undoes the
writes before it.  A byte table keeps to this for every batch and over any contents.  A shelf
checks a batch against the markers that were there before it, so it does not see an entry that
steps back behind an earlier one of the batch: it keeps to the rule for the batches that only go
forward, and for no others.
-/

set_option autoImplicit false

namespace ReadTracking

namespace Backing

variable {σ : Type}

def inOrder (store : Entry → σ → Called Unit σ) (es : List Entry) (s : σ) : Called Unit σ :=
  match storeEach store es s with
  | (.ok (), s') => (.ok (), s')
  | (.error why, _) => (.error why, s)

def Forward (es : List Entry) : Prop :=
  es.Pairwise fun a b => a.slot = b.slot → a.mark.sequence ≤ b.mark.sequence

instance (es : List Entry) : Decidable (Forward es) :=
  inferInstanceAs (Decidable (es.Pairwise _))

variable {store : Entry → σ → Called Unit σ} {es : List Entry} {s s' : σ} {why : StorageError}

theorem inOrder_of_ok (h : storeEach store es s = (.ok (), s')) :
    inOrder store es s = (.ok (), s') := by
  simp only [inOrder, h]

theorem inOrder_of_error (h : storeEach store es s = (.error why, s')) :
    inOrder store es s = (.error why, s) := by
  simp only [inOrder, h]

theorem inOrder_ok_iff :
    inOrder store es s = (.ok (), s') ↔ storeEach store es s = (.ok (), s') := by
  unfold inOrder
  split
  next h => rw [h]
  next h => simp [h]

/-- What every write reaches in its own slot, and no write takes back in any slot, is reached in
the slot of every entry of a sequence of writes. -/
theorem reached_of_storeEach (Within : Entry → Prop) {Reached : σ → Slot → Nat → Prop}
    (hself : ∀ {e s s'}, Within e → store e s = (.ok (), s') →
      Reached s' e.slot e.mark.sequence)
    (hkeep : ∀ {e s s' slot q}, Within e → store e s = (.ok (), s') → Reached s slot q →
      Reached s' slot q)
    (hes : ∀ e ∈ es, Within e) (h : storeEach store es s = (.ok (), s')) :
    (∀ slot q, Reached s slot q → Reached s' slot q) ∧
      ∀ e ∈ es, Reached s' e.slot e.mark.sequence := by
  induction es generalizing s with
  | nil =>
    cases h
    exact ⟨fun _ _ hr => hr, fun e he => absurd he List.not_mem_nil⟩
  | cons e es ih =>
    have he := hes e List.mem_cons_self
    simp only [storeEach] at h
    split at h
    next s₁ hw =>
      obtain ⟨hold, hnew⟩ := ih (fun e' he' => hes e' (List.mem_cons_of_mem _ he')) h
      constructor
      · intro slot q hr
        exact hold slot q (hkeep he hw hr)
      · intro e' he'
        rcases List.mem_cons.1 he' with rfl | he'
        · exact hold _ _ (hself he hw)
        · exact hnew e' he'
    next => cases h

end Backing

open Backing

/-! ## Batches on a shelf -/

namespace Shelf

variable {s s' : Shelf} {e : Entry} {es : List Entry}

def Reached (s : Shelf) (slot : Slot) (sequence : Nat) : Prop :=
  ∃ m, s.marks.get? slot = some m ∧ sequence ≤ m.sequence

theorem regression?_eq_none_iff :
    s.regression? e = none ↔ ∀ m, s.marks.get? e.slot = some m → m.sequence ≤ e.mark.sequence := by
  constructor
  · intro h m hm
    simp only [regression?, hm] at h
    split at h
    next => cases h
    next hn => omega
  · exact regression?_eq_none

theorem store_ok_iff :
    Backing.store e s = (.ok (), s') ↔ s.regression? e = none ∧ s' = s.put e := by
  show Shelf.store e s = _ ↔ _
  unfold Shelf.store
  cases s.regression? e with
  | none => simp [eq_comm]
  | some why => simp

theorem Reached.of_store (h : Backing.store e s = (.ok (), s')) :
    s'.Reached e.slot e.mark.sequence := by
  obtain ⟨-, rfl⟩ := store_ok_iff.1 h
  exact ⟨e.mark, Table.get?_insert_self _ _ _, Nat.le_refl _⟩

theorem Reached.store {slot : Slot} {q : Nat} (hr : s.Reached slot q)
    (h : Backing.store e s = (.ok (), s')) : s'.Reached slot q := by
  obtain ⟨hnone, rfl⟩ := store_ok_iff.1 h
  obtain ⟨m, hm, hq⟩ := hr
  by_cases hslot : slot = e.slot
  · subst hslot
    have hle := regression?_eq_none_iff.1 hnone m hm
    exact ⟨e.mark, Table.get?_insert_self _ _ _, by omega⟩
  · exact ⟨m, (Table.get?_insert_of_ne _ _ hslot).trans hm, hq⟩

/-- An entry that is written is seen by the check of a later entry only if that one steps back
behind it. -/
theorem regression?_put {e' : Entry} (hnone : s.regression? e = none)
    (hforward : e.slot = e'.slot → e.mark.sequence ≤ e'.mark.sequence) :
    (s.put e).regression? e' = s.regression? e' := by
  by_cases hslot : e'.slot = e.slot
  · have hle := hforward hslot.symm
    have hbefore : s.regression? e' = none := by
      apply regression?_eq_none
      intro m hm
      have := regression?_eq_none_iff.1 hnone m (hslot ▸ hm)
      omega
    rw [hbefore]
    apply regression?_eq_none
    intro m hm
    rw [hslot, put, Table.get?_insert_self] at hm
    cases hm
    exact hle
  · unfold regression?
    rw [put, Table.get?_insert_of_ne _ _ hslot]

theorem findSome?_regression?_put (hnone : s.regression? e = none)
    (hforward : ∀ e' ∈ es, e.slot = e'.slot → e.mark.sequence ≤ e'.mark.sequence) :
    es.findSome? (s.put e).regression? = es.findSome? s.regression? := by
  induction es with
  | nil => rfl
  | cons e' es ih =>
    rw [List.findSome?_cons, List.findSome?_cons,
      regression?_put hnone (hforward e' List.mem_cons_self),
      ih fun e'' he'' => hforward e'' (List.mem_cons_of_mem _ he'')]

/-- Entries can be written one after the other exactly if none of them is behind what was there
and none steps back behind an earlier one. -/
theorem noneBehind_iff :
    NoneBehind s.marks es ↔ (∀ e ∈ es, s.regression? e = none) ∧ Forward es := by
  induction es generalizing s with
  | nil => simp [NoneBehind, Forward]
  | cons e es ih =>
    have ih := ih (s := s.put e)
    constructor
    · intro h
      obtain ⟨hrest, hforward⟩ := ih.1 h.2
      constructor
      · exact regression?_eq_none_of_noneBehind h
      · apply List.pairwise_cons.2 ⟨?_, hforward⟩
        intro e' he' hslot
        apply regression?_eq_none_iff.1 (hrest e' he')
        rw [← hslot]
        exact Table.get?_insert_self _ _ _
    · rintro ⟨hnone, hforward⟩
      obtain ⟨hhead, htail⟩ := List.pairwise_cons.1 hforward
      have he := hnone e List.mem_cons_self
      refine ⟨regression?_eq_none_iff.1 he, ih.2 ⟨?_, htail⟩⟩
      intro e' he'
      rw [regression?_put he (hhead e' he')]
      exact hnone e' (List.mem_cons_of_mem _ he')

theorem storeEach_of_noneBehind (h : NoneBehind s.marks es) :
    storeEach Backing.store es s = (.ok (), es.foldl put s) := by
  induction es generalizing s with
  | nil => rfl
  | cons e es ih =>
    have hw : Backing.store e s = (.ok (), s.put e) := store_of_noneBehind ⟨h.1, trivial⟩
    simp only [storeEach, hw, List.foldl_cons]
    exact ih h.2

theorem noneBehind_of_storeEach (h : storeEach Backing.store es s = (.ok (), s')) :
    NoneBehind s.marks es := by
  induction es generalizing s with
  | nil => trivial
  | cons e es ih =>
    simp only [storeEach] at h
    split at h
    next s₁ hw =>
      obtain ⟨hnone, rfl⟩ := store_ok_iff.1 hw
      exact ⟨regression?_eq_none_iff.1 hnone, ih h⟩
    next => cases h

/-- Writes one after the other that only go forward are refused where the check of the batch
refuses them. -/
theorem storeEach_of_forward (h : Forward es) :
    (storeEach Backing.store es s).1 =
      match es.findSome? s.regression? with
      | some why => .error why
      | none => .ok () := by
  induction es generalizing s with
  | nil => rfl
  | cons e es ih =>
    obtain ⟨hhead, htail⟩ := List.pairwise_cons.1 h
    cases hr : s.regression? e with
    | some why =>
      have hw : Backing.store e s = (.error why, s) := by
        show Shelf.store e s = _
        simp only [Shelf.store, hr]
      simp only [storeEach, hw, List.findSome?_cons, hr]
    | none =>
      have hw : Backing.store e s = (.ok (), s.put e) := store_ok_iff.2 ⟨hr, rfl⟩
      simp only [storeEach, hw, List.findSome?_cons, hr, ← findSome?_regression?_put hr hhead]
      exact ih htail

theorem storeAll_ok_iff :
    Backing.storeAll es s = (.ok (), s') ↔
      (∀ e ∈ es, s.regression? e = none) ∧ s' = es.foldl put s := by
  rw [← List.findSome?_eq_none_iff]
  show Shelf.storeAll es s = _ ↔ _
  unfold Shelf.storeAll
  cases es.findSome? s.regression? with
  | none => simp [eq_comm]
  | some why => simp

theorem storeAll_of_inOrder (h : inOrder Backing.store es s = (.ok (), s')) :
    Backing.storeAll es s = (.ok (), s') := by
  have heach := inOrder_ok_iff.1 h
  have hnone := noneBehind_of_storeEach heach
  rw [storeEach_of_noneBehind hnone] at heach
  cases heach
  exact storeAll_of_noneBehind hnone

theorem storeAll_eq_inOrder (h : Forward es) (s : Shelf) :
    Backing.storeAll es s = inOrder Backing.store es s := by
  have heach := storeEach_of_forward (s := s) h
  rcases hrun : storeEach Backing.store es s with ⟨answer, s'⟩
  rw [hrun] at heach
  cases hr : es.findSome? s.regression? with
  | none =>
    rw [hr] at heach
    cases heach
    exact (storeAll_of_inOrder (inOrder_of_ok hrun)).trans (inOrder_of_ok hrun).symm
  | some why =>
    rw [hr] at heach
    cases heach
    rw [inOrder_of_error hrun]
    show Shelf.storeAll es s = _
    simp only [Shelf.storeAll, hr]

/-- Of the batches that are taken, those that only go forward could be written one after the
other. -/
theorem inOrder_of_storeAll (h : Backing.storeAll es s = (.ok (), s')) :
    (inOrder Backing.store es s).1 = .ok () ↔ Forward es := by
  obtain ⟨hnone, -⟩ := storeAll_ok_iff.1 h
  constructor
  · intro hok
    have hrun : inOrder Backing.store es s = (.ok (), (inOrder Backing.store es s).2) :=
      Prod.ext hok rfl
    exact (noneBehind_iff.1 (noneBehind_of_storeEach (inOrder_ok_iff.1 hrun))).2
  · intro hforward
    rw [inOrder_of_ok (storeEach_of_noneBehind (noneBehind_iff.2 ⟨hnone, hforward⟩))]

/-- A batch that is refused is refused in order as well, if perhaps for another entry. -/
theorem inOrder_of_refused {why : StorageError}
    (h : Backing.storeAll es s = (.error why, s')) :
    s' = s ∧ ∃ why', inOrder Backing.store es s = (.error why', s) := by
  rcases hrun : storeEach Backing.store es s with ⟨⟨why'⟩ | ⟨⟨⟩⟩, s₁⟩
  · have hsame : s' = s := by
      change Shelf.storeAll es s = _ at h
      unfold Shelf.storeAll at h
      split at h
      next => exact (congrArg Prod.snd h).symm
      next => cases h
    exact ⟨hsame, why', inOrder_of_error hrun⟩
  · rw [storeAll_of_inOrder (inOrder_of_ok hrun)] at h
    cases h

end Shelf

/-! ## Batches in a byte table -/

namespace ByteTable

variable {t t' : ByteTable} {e : Entry} {es : List Entry}

def marker? (t : ByteTable) (slot : Slot) : Option Entry :=
  (t.rows.get? (slotKey slot)).bind Cbor.readMarker

def Reached (t : ByteTable) (slot : Slot) (sequence : Nat) : Prop :=
  ∃ old, t.marker? slot = some old ∧ sequence ≤ old.mark.sequence

def put (t : ByteTable) (e : Entry) : ByteTable :=
  ⟨t.rows.insert (slotKey e.slot) (Cbor.writeMarker e)⟩

theorem store_eq (e : Entry) (t : ByteTable) :
    Backing.store e t =
      match t.write e with
      | .ok t' => (.ok (), t')
      | .error why => (.error why, t) := by
  show ByteTable.storeAll [e] t = _
  simp only [ByteTable.storeAll, writeAll]
  cases t.write e <;> rfl

theorem write_ok_iff : t.write e = .ok t' ↔
    (∀ old, t.marker? e.slot = some old → old.mark.sequence ≤ e.mark.sequence) ∧ t' = t.put e := by
  simp only [write, marker?, put]
  cases (t.rows.get? (slotKey e.slot)).bind Cbor.readMarker with
  | none => simp [eq_comm]
  | some old =>
    by_cases hlt : e.mark.sequence < old.mark.sequence
    · simp [hlt, Nat.not_le.2 hlt]
    · have hle := Nat.not_lt.1 hlt
      simp [hlt, hle, eq_comm]

theorem store_ok_iff : Backing.store e t = (.ok (), t') ↔ t.write e = .ok t' := by
  rw [store_eq]
  cases t.write e <;> simp

theorem marker?_put_self (he : capacity.entry e) : (t.put e).marker? e.slot = some e := by
  rw [marker?, put, Table.get?_insert_self]
  exact readMarker_writeMarker he

theorem Reached.of_store (he : capacity.entry e) (h : Backing.store e t = (.ok (), t')) :
    t'.Reached e.slot e.mark.sequence := by
  obtain ⟨-, rfl⟩ := write_ok_iff.1 (store_ok_iff.1 h)
  exact ⟨e, marker?_put_self he, Nat.le_refl _⟩

theorem Reached.store (he : capacity.entry e) {slot : Slot} {q : Nat} (hr : t.Reached slot q)
    (h : Backing.store e t = (.ok (), t')) : t'.Reached slot q := by
  obtain ⟨hle, rfl⟩ := write_ok_iff.1 (store_ok_iff.1 h)
  obtain ⟨old, hold, hq⟩ := hr
  -- What counts is the key: two slots of rooms that are too long may share one.
  by_cases hkey : slotKey slot = slotKey e.slot
  · have hle' := hle old (by rw [← hold, marker?, marker?, hkey])
    refine ⟨e, ?_, by omega⟩
    rw [marker?, hkey]
    exact marker?_put_self he
  · refine ⟨old, ?_, hq⟩
    rw [← hold, marker?, marker?, put, Table.get?_insert_of_ne _ _ hkey]

theorem storeEach_of_writeAll (h : writeAll es t = .ok t') :
    storeEach Backing.store es t = (.ok (), t') := by
  induction es generalizing t with
  | nil =>
    cases h
    rfl
  | cons e es ih =>
    simp only [writeAll] at h
    split at h
    next t₁ hw =>
      simp only [storeEach, store_ok_iff.2 hw]
      exact ih h
    next => cases h

theorem storeEach_of_writeAll_error {why : StorageError} (h : writeAll es t = .error why) :
    ∃ t', storeEach Backing.store es t = (.error why, t') := by
  induction es generalizing t with
  | nil => cases h
  | cons e es ih =>
    simp only [writeAll] at h
    split at h
    next t₁ hw =>
      simp only [storeEach, store_ok_iff.2 hw]
      exact ih h
    next why' hw =>
      cases h
      simp only [storeEach, store_eq, hw]
      exact ⟨t, rfl⟩

/-- A transaction is its writes one after the other, all or none. -/
theorem storeAll_eq_inOrder (es : List Entry) (t : ByteTable) :
    Backing.storeAll es t = inOrder Backing.store es t := by
  show ByteTable.storeAll es t = _
  unfold ByteTable.storeAll
  cases h : writeAll es t with
  | ok t' => exact (inOrder_of_ok (storeEach_of_writeAll h)).symm
  | error why =>
    obtain ⟨t', ht'⟩ := storeEach_of_writeAll_error h
    exact (inOrder_of_error ht').symm

end ByteTable

/-! ## Both storages -/

/-- On a shelf the batches that go forward, and no others, are written over any contents as they
are in order.  Of the others, none is refused that could be written in order, but those are taken
of which no entry is behind what was there before.  In a byte table all batches are written as
they are in order.  Entries written in order leave no slot short of a sequence that it was
given. -/
theorem Backing.batches_written_in_order (es : List Entry) :
    ((∀ s : Shelf, Backing.storeAll es s = inOrder Backing.store es s) ↔ Forward es) ∧
    (∀ s s' : Shelf, inOrder Backing.store es s = (.ok (), s') →
      Backing.storeAll es s = (.ok (), s')) ∧
    (∀ s s' : Shelf, Backing.storeAll es s = (.ok (), s') →
      ((inOrder Backing.store es s).1 = .ok () ↔ Forward es)) ∧
    (∀ (s s' : Shelf) (why : StorageError), Backing.storeAll es s = (.error why, s') →
      s' = s ∧ ∃ why', inOrder Backing.store es s = (.error why', s)) ∧
    (∀ s s' : Shelf, inOrder Backing.store es s = (.ok (), s') →
      ∀ e ∈ es, s'.Reached e.slot e.mark.sequence) ∧
    (∀ t : ByteTable, Backing.storeAll es t = inOrder Backing.store es t) ∧
    ((∀ e ∈ es, ByteTable.capacity.entry e) → ∀ t t' : ByteTable,
      Backing.storeAll es t = (.ok (), t') → ∀ e ∈ es, t'.Reached e.slot e.mark.sequence) := by
  refine ⟨⟨?_, Shelf.storeAll_eq_inOrder⟩, fun s s' => Shelf.storeAll_of_inOrder,
    fun s s' => Shelf.inOrder_of_storeAll, fun s s' why => Shelf.inOrder_of_refused, ?_,
    ByteTable.storeAll_eq_inOrder es, ?_⟩
  · intro h
    -- Nothing is behind what an empty shelf holds.
    have htaken : Backing.storeAll es Shelf.empty = (.ok (), es.foldl Shelf.put Shelf.empty) :=
      Shelf.storeAll_ok_iff.2 ⟨fun _ _ => rfl, rfl⟩
    rw [← Shelf.inOrder_of_storeAll htaken, ← h, htaken]
  · intro s s' h
    exact (reached_of_storeEach (fun _ => True) (fun _ => Shelf.Reached.of_store)
      (fun _ hw hr => hr.store hw) (fun _ _ => trivial) (inOrder_ok_iff.1 h)).2
  · intro hes t t' h
    rw [ByteTable.storeAll_eq_inOrder] at h
    exact (reached_of_storeEach ByteTable.capacity.entry ByteTable.Reached.of_store
      (fun he hw hr => hr.store he hw) hes (inOrder_ok_iff.1 h)).2

/-- Two reads of one scope, the later one further on, and two that come too late. -/
theorem Backing.batches_written_in_order_of_two_reads :
    let read (event : String) (q : Nat) : Entry :=
      ⟨⟨.ofRoom ⟨"!r"⟩, .personal⟩, ⟨⟨event⟩, q, 0⟩⟩
    let es := [read "$3" 3, read "$5" 5]
    let late := [read "$3" 3, read "$2" 2]
    let read5 := Shelf.empty.put (read "$5" 5)
    (∀ s : Shelf, Backing.storeAll es s = inOrder Backing.store es s) ∧
      (inOrder Backing.store es Shelf.empty).1 = .ok () ∧
      (Backing.storeAll es Shelf.empty).2.Reached (read "$5" 5).slot 5 ∧
      (∃ why, inOrder Backing.store late read5 = (.error why, read5)) ∧
      (Backing.storeAll es ByteTable.empty).2.Reached (read "$3" 3).slot 3 := by
  intro read es late read5
  obtain ⟨hforward, htaken, hiff, -, hreached, -, hrows⟩ := Backing.batches_written_in_order es
  obtain ⟨-, -, -, hrefused, -⟩ := Backing.batches_written_in_order late
  have hes : Forward es := by decide +kernel
  have hroom : (⟨"!r"⟩ : RoomId).Fits := by decide +kernel
  have hzero : 0 < Cbor.headBound := by decide
  have hfits : ∀ e ∈ es, ByteTable.capacity.entry e := by
    have hentry : ∀ {event q}, (utf8 event).length < Cbor.headBound → q < Cbor.headBound →
        ByteTable.capacity.entry (read event q) := fun hevent hq =>
      ⟨⟨hroom, fun _ h => (by cases h)⟩, hevent, hq, hzero⟩
    simp only [es, List.forall_mem_cons]
    exact ⟨hentry (by decide +kernel) (by decide), hentry (by decide +kernel) (by decide),
      fun _ h => (by cases h)⟩
  have hall := hforward.2 hes
  have hshelf : Backing.storeAll es Shelf.empty = (.ok (), es.foldl Shelf.put Shelf.empty) := rfl
  have hbytes : Backing.storeAll es ByteTable.empty =
      (.ok (), (Backing.storeAll es ByteTable.empty).2) := Prod.ext (by decide +kernel) rfl
  have hrun := (hall Shelf.empty).symm.trans hshelf
  have hsame := htaken _ _ hrun
  refine ⟨hall, (hiff _ _ hsame).2 hes, ?_, ?_, ?_⟩
  · rw [hsame]
    exact hreached _ _ hrun (read "$5" 5) (by simp [es])
  · have hlate : Backing.storeAll late read5 = (.error (.regression 5 3), read5) := by
      decide +kernel
    exact (hrefused _ _ _ hlate).2
  · exact hrows hfits _ _ hbytes (read "$3" 3) (by simp [es])

/-- A batch with two markers for one slot, the later one further back.  The shelf takes it and
stands at the lower sequence; in order the second write is refused. -/
theorem Shelf.batch_steps_back :
    let read (event : String) (q : Nat) : Entry :=
      ⟨⟨.ofRoom ⟨"!r"⟩, .personal⟩, ⟨⟨event⟩, q, 0⟩⟩
    let es := [read "$5" 5, read "$3" 3]
    Backing.storeAll es Shelf.empty = (.ok (), Shelf.empty.put (read "$3" 3)) ∧
      inOrder Backing.store es Shelf.empty = (.error (.regression 5 3), Shelf.empty) ∧
      (Backing.storeAll es ByteTable.empty).1 = .error (.regression 5 3) := by
  decide +kernel

end ReadTracking
