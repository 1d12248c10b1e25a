import ReadTracking.Proofs.Batches
import ReadTracking.Proofs.WriteThrough

/-!
# Advancing at once

A book advances several markers with one write.  Over a storage that never fails and is nowhere
ahead of the book, that comes to the same as advancing them one by one: what the updates are
compared with is in memory, and every write that is asked for is taken, whether it comes alone or
in a batch.
-/

set_option autoImplicit false

namespace ReadTracking

namespace MarkerBook

open Backing

variable {σ : Type} [Backing σ]

def advanceEach (v : Visibility) (now : Nat) :
    List Update → MarkerBook σ → MarkerBook σ × List (Update × Advance)
  | [], b => (b, [])
  | u :: us, b =>
    let (b, advance) := b.advance u v now
    let (b, rest) := advanceEach v now us b
    (b, (u, advance) :: rest)

def movedOf (outcomes : List (Update × Advance)) : List Update :=
  (outcomes.filter fun o => o.2.moved).map (·.1)

/-- A storage that is nowhere ahead of the markers takes every entry that is, and still is nowhere
ahead of them.  What it takes one by one it takes in a batch. -/
structure Takes (Within : Entry → Prop) (NotAhead : σ → Table Slot Mark → Prop) : Prop where
  store : ∀ {s : σ} {marks e}, NotAhead s marks → Within e →
    (∀ m, marks.get? e.slot = some m → m.sequence < e.mark.sequence) →
    ∃ s', Backing.store e s = (.ok (), s') ∧ NotAhead s' (marks.insert e.slot e.mark)
  storeAll : ∀ {s s' : σ} {es}, storeEach Backing.store es s = (.ok (), s') →
    Backing.storeAll es s = (.ok (), s')

variable {Within : Entry → Prop} {NotAhead : σ → Table Slot Mark → Prop} {b : MarkerBook σ}
  {u : Update} {us : List Update} {v : Visibility} {now : Nat}

def written (b : MarkerBook σ) (v : Visibility) (now : Nat) (u : Update) (s : σ) :
    MarkerBook σ :=
  { b.setMark v now u with storage := s }.settle ⟨u.scope, v⟩

omit [Backing σ] in
theorem setAll_written (b : MarkerBook σ) (v : Visibility) (now : Nat) (u : Update) (s s' : σ)
    (us : List Update) :
    ((b.written v now u s).setAll v now us).2 = ((b.setMark v now u).setAll v now us).2 ∧
      { ((b.written v now u s).setAll v now us).1 with storage := s' } =
        { ((b.setMark v now u).setAll v now us).1 with storage := s' }.settle ⟨u.scope, v⟩ := by
  have hmarks : (b.written v now u s).marks = (b.setMark v now u).marks := rfl
  obtain ⟨hsame, hmoved⟩ := setAll_congr v now us hmarks
  refine ⟨hmoved, ?_⟩
  simp only [settle, hsame, unflushed_setAll]
  rfl

omit [Backing σ] in
theorem setAll_of_isEmpty (h : (b.setAll v now us).2 = []) : (b.setAll v now us).1 = b := by
  have hmarks := marks_setAll v now us b
  rw [h] at hmarks
  have hstorage := storage_setAll v now us b
  have hunflushed := unflushed_setAll v now us b
  revert hmarks hstorage hunflushed
  rcases (b.setAll v now us).1 with ⟨s, marks, unflushed⟩
  rintro rfl rfl rfl
  rfl

namespace Takes

theorem advance (w : Takes Within NotAhead) (h : NotAhead b.storage b.marks)
    (hu : Within (entryOf v now u)) (hs : b.isStale v u = false) :
    ∃ s, Backing.store (entryOf v now u) b.storage = (.ok (), s) ∧
      b.advance u v now = (b.written v now u s, .applied) ∧
      NotAhead (b.written v now u s).storage (b.written v now u s).marks := by
  obtain ⟨s, hw, hn⟩ := w.store h hu fun m hm => lt_of_not_isStale hs hm
  refine ⟨s, hw, ?_, hn⟩
  simp only [MarkerBook.advance, hs, Bool.false_eq_true, if_false]
  have hstore : Backing.store (entryOf v now u) (b.setMark v now u).storage = (.ok (), s) := hw
  rw [hstore]
  rfl

/-- One by one: everything that moves is written in order and settled, and nothing else happens. -/
theorem advanceEach_eq (w : Takes Within NotAhead) (h : NotAhead b.storage b.marks)
    (hus : ∀ u ∈ us, Within (entryOf v now u)) :
    movedOf (advanceEach v now us b).2 = (b.setAll v now us).2 ∧
      (∀ o ∈ (advanceEach v now us b).2, o.2 = .ignored ∨ o.2 = .applied) ∧
      ∃ s, storeEach Backing.store ((b.setAll v now us).2.map (entryOf v now)) b.storage =
          (.ok (), s) ∧
        (advanceEach v now us b).1 = (b.setAll v now us).2.foldl
          (fun (b : MarkerBook σ) u => b.settle ⟨u.scope, v⟩)
          { (b.setAll v now us).1 with storage := s } := by
  induction us generalizing b with
  | nil => exact ⟨rfl, fun _ ho => absurd ho List.not_mem_nil, b.storage, rfl, rfl⟩
  | cons u us ih =>
    have hrest : ∀ u' ∈ us, Within (entryOf v now u') :=
      fun u' hu' => hus u' (List.mem_cons_of_mem _ hu')
    cases hs : b.isStale v u with
    | true =>
      obtain ⟨hmoved, houtcomes, hrun⟩ := ih h hrest
      simp only [advanceEach, advance_of_isStale b hs, setAll, hs, if_true]
      refine ⟨hmoved, ?_, hrun⟩
      intro o ho
      rcases List.mem_cons.1 ho with rfl | ho
      · exact .inl rfl
      · exact houtcomes o ho
    | false =>
      obtain ⟨s₁, hw, hadvance, hn⟩ := w.advance h (hus u List.mem_cons_self) hs
      obtain ⟨hmoved, houtcomes, s, hrun, hbook⟩ := ih hn hrest
      -- Here the write comes before the rest and in a batch after it, which the rest does not see.
      obtain ⟨hsame, hsettled⟩ := setAll_written b v now u s₁ s us
      rw [hsame] at hmoved hrun hbook
      rw [hsettled] at hbook
      simp only [advanceEach, hadvance, setAll, hs, Bool.false_eq_true, if_false]
      refine ⟨congrArg (u :: ·) hmoved, ?_, s, ?_, hbook⟩
      · intro o ho
        rcases List.mem_cons.1 ho with rfl | ho
        · exact .inr rfl
        · exact houtcomes o ho
      · simp only [List.map_cons, storeEach, hw]
        exact hrun

theorem advanceAll_eq (w : Takes Within NotAhead) (h : NotAhead b.storage b.marks)
    (hus : ∀ u ∈ us, Within (entryOf v now u)) :
    b.advanceAll us v now =
        ((advanceEach v now us b).1, movedOf (advanceEach v now us b).2,
          if (movedOf (advanceEach v now us b).2).isEmpty then .ignored else .applied) ∧
      ∀ o ∈ (advanceEach v now us b).2, o.2 = .ignored ∨ o.2 = .applied := by
  obtain ⟨hmoved, houtcomes, s, hrun, hbook⟩ := w.advanceEach_eq h hus
  refine ⟨?_, houtcomes⟩
  rw [hmoved, hbook]
  unfold MarkerBook.advanceAll
  simp only [storage_setAll]
  cases hempty : (b.setAll v now us).2.isEmpty with
  | true =>
    have hnil := List.isEmpty_iff.1 hempty
    rw [hnil] at hrun ⊢
    cases hrun
    simp only [if_true, List.foldl_nil, setAll_of_isEmpty hnil]
  | false => simp only [Bool.false_eq_true, if_false, w.storeAll hrun]

end Takes

end MarkerBook

/-! ## The two storages -/

open MarkerBook Backing

theorem Shelf.takes :
    Takes (fun _ => True) fun (s : Shelf) marks => Behind s.marks marks where
  store {s marks e} h _ hlt := by
    have hnone : NoneBehind s.marks [e] := by
      refine ⟨?_, trivial⟩
      intro m hm
      obtain ⟨m', hm', hle⟩ := h _ _ hm
      have := hlt m' hm'
      omega
    refine ⟨s.put e, store_of_noneBehind hnone, ?_⟩
    intro slot m hm
    by_cases hslot : slot = e.slot
    · subst hslot
      rw [put, Table.get?_insert_self] at hm
      cases hm
      exact ⟨e.mark, Table.get?_insert_self _ _ _, Nat.le_refl _⟩
    · rw [put, Table.get?_insert_of_ne _ _ hslot] at hm
      rw [Table.get?_insert_of_ne _ _ hslot]
      exact h slot m hm
  storeAll h := storeAll_of_inOrder (inOrder_of_ok h)

namespace ByteTable

def NotAhead (t : ByteTable) (marks : Table Slot Mark) : Prop :=
  ∀ slot old, slot.scope.room.Fits → t.marker? slot = some old →
    ∃ m, marks.get? slot = some m ∧ old.mark.sequence ≤ m.sequence

theorem NotAhead.put {t : ByteTable} {marks : Table Slot Mark} (h : t.NotAhead marks) {e : Entry}
    (he : capacity.entry e) : (t.put e).NotAhead (marks.insert e.slot e.mark) := by
  intro slot old hfits hold
  by_cases hslot : slot = e.slot
  · subst hslot
    rw [marker?_put_self he] at hold
    cases hold
    exact ⟨e.mark, Table.get?_insert_self _ _ _, Nat.le_refl _⟩
  · have hkey : slotKey slot ≠ slotKey e.slot := fun hkey => hslot (slotKey_inj hfits he.1.1 hkey)
    rw [marker?, ByteTable.put, Table.get?_insert_of_ne _ _ hkey] at hold
    rw [Table.get?_insert_of_ne _ _ hslot]
    exact h slot old hfits hold

theorem takes : Takes capacity.entry NotAhead where
  store {t marks e} h he hlt := by
    refine ⟨t.put e, store_ok_iff.2 (write_ok_iff.2 ⟨?_, rfl⟩), h.put he⟩
    intro old hold
    obtain ⟨m, hm, hle⟩ := h _ _ he.1.1 hold
    have := hlt m hm
    omega
  storeAll h := (storeAll_eq_inOrder _ _).trans (inOrder_of_ok h)

end ByteTable

/-- Over a shelf or a byte table that is nowhere ahead of the book, to advance several markers at
once leaves the book and the storage that advancing them one by one leaves; what moved is what
moved there, in order, and the outcome says whether anything did. -/
theorem MarkerBook.advance_at_once (v : Visibility) (now : Nat) (us : List Update) :
    (∀ b : MarkerBook Shelf, Behind b.storage.marks b.marks →
      b.advanceAll us v now =
          ((advanceEach v now us b).1, movedOf (advanceEach v now us b).2,
            if (movedOf (advanceEach v now us b).2).isEmpty then .ignored else .applied) ∧
        ∀ o ∈ (advanceEach v now us b).2, o.2 = .ignored ∨ o.2 = .applied) ∧
    ((∀ u ∈ us, ByteTable.capacity.update u) → ByteTable.capacity.number now →
      ∀ b : MarkerBook ByteTable, b.storage.NotAhead b.marks →
        b.advanceAll us v now =
            ((advanceEach v now us b).1, movedOf (advanceEach v now us b).2,
              if (movedOf (advanceEach v now us b).2).isEmpty then .ignored else .applied) ∧
          ∀ o ∈ (advanceEach v now us b).2, o.2 = .ignored ∨ o.2 = .applied) := by
  constructor
  · intro b h
    exact Shelf.takes.advanceAll_eq h fun _ _ => trivial
  · intro hus hnow b h
    apply ByteTable.takes.advanceAll_eq h
    intro u hu
    exact entry_entryOf (hus u hu) hnow v

/-- Updates that repeat a scope, the last of them stale, over storages that are one write behind. -/
theorem MarkerBook.advance_at_once_with_repeated_scopes :
    let main : Scope := .ofRoom ⟨"!r"⟩
    let slot : Slot := ⟨main, .personal⟩
    let us : List Update := [⟨main, ⟨"$3"⟩, 3⟩, ⟨.ofThread ⟨"!r"⟩ ⟨"$1"⟩, ⟨"$2"⟩, 2⟩,
      ⟨main, ⟨"$5"⟩, 5⟩, ⟨main, ⟨"$4"⟩, 4⟩]
    let stored : Entry := ⟨slot, ⟨⟨"$0"⟩, 0, 0⟩⟩
    let marks : Table Slot Mark := (Table.empty.insert slot stored.mark).insert slot ⟨⟨"$1"⟩, 1, 0⟩
    let shelf : MarkerBook Shelf := ⟨Shelf.empty.put stored, marks, Table.empty.insert slot ()⟩
    let bytes : MarkerBook ByteTable :=
      ⟨ByteTable.empty.put stored, marks, Table.empty.insert slot ()⟩
    shelf.advanceAll us .personal 9 =
        ((advanceEach .personal 9 us shelf).1, us.take 3, .applied) ∧
      bytes.advanceAll us .personal 9 =
        ((advanceEach .personal 9 us bytes).1, us.take 3, .applied) := by
  intro main slot us stored marks shelf bytes
  obtain ⟨hshelf, hbytes⟩ := MarkerBook.advance_at_once .personal 9 us
  have hroom : (⟨"!r"⟩ : RoomId).Fits := by decide +kernel
  have hevent : ∀ {event}, event ∈ ["$0", "$1", "$2", "$3", "$4", "$5"] →
      (utf8 event).length < Cbor.headBound := by decide +kernel
  have hsmall : ∀ {n}, n < 10 → n < Cbor.headBound := fun h => Nat.lt_trans h (by decide)
  have hstored : ByteTable.capacity.entry stored :=
    ⟨⟨hroom, fun _ h => (by cases h)⟩, hevent (by simp [stored]), hsmall (by decide),
      hsmall (by decide)⟩
  have hus : ∀ u ∈ us, ByteTable.capacity.update u := by
    have hmain : ∀ {event q}, event ∈ ["$0", "$1", "$2", "$3", "$4", "$5"] → q < 10 →
        ByteTable.capacity.update ⟨main, ⟨event⟩, q⟩ := fun hmem hq =>
      ⟨⟨hroom, fun _ h => (by cases h)⟩, hevent hmem, hsmall hq⟩
    have hthread : ByteTable.capacity.scope (.ofThread ⟨"!r"⟩ ⟨"$1"⟩) := by
      refine ⟨hroom, ?_⟩
      rintro root ⟨⟩
      show (utf8 "$1").length < Cbor.headBound
      exact hevent (by simp)
    simp only [us, List.forall_mem_cons]
    exact ⟨hmain (by simp) (by decide), ⟨hthread, hevent (by simp), hsmall (by decide)⟩,
      hmain (by simp) (by decide), hmain (by simp) (by decide), fun _ h => (by cases h)⟩
  have hbehind : Behind (Table.empty.insert slot stored.mark) marks := by
    intro slot' m hm
    by_cases hslot : slot' = slot
    · subst hslot
      rw [Table.get?_insert_self] at hm
      cases hm
      exact ⟨_, Table.get?_insert_self _ _ _, Nat.zero_le _⟩
    · exact ⟨m, (Table.get?_insert_of_ne _ _ hslot).trans hm, Nat.le_refl _⟩
  have hnotAhead : bytes.storage.NotAhead bytes.marks := by
    have hempty : ByteTable.empty.NotAhead .empty := fun _ _ _ h => by cases h
    intro slot' old hfits hold
    obtain ⟨m, hm, hle⟩ := hempty.put hstored slot' old hfits hold
    obtain ⟨m', hm', hle'⟩ := hbehind slot' m hm
    exact ⟨m', hm', Nat.le_trans hle hle'⟩
  have hmoved : movedOf (advanceEach .personal 9 us shelf).2 = us.take 3 := by decide +kernel
  have hmoved' : movedOf (advanceEach .personal 9 us bytes).2 = us.take 3 := by decide +kernel
  have hall := (hshelf shelf hbehind).1
  have hall' := (hbytes hus (hsmall (by decide)) bytes hnotAhead).1
  rw [hmoved] at hall
  rw [hmoved'] at hall'
  exact ⟨hall, hall'⟩

end ReadTracking
