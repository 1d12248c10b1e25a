import ReadTracking.Audit
import ReadTracking.Proofs.Forgetting

/-!
# What an audit sees of the storage

The check of what is stored goes through the markers in memory.  It passes exactly if every marker
in memory fits what is stored in its slot.  A slot that only the storage has is a stray, and no
stray is ever seen: a storage that is ahead of memory in that way passes.  A forgetting that the
storage refuses leaves such slots, and nothing else does.
-/

set_option autoImplicit false

namespace ReadTracking

open Backing

namespace Snapshot

structure Faithful (s : Snapshot) : Prop where
  behind : ∀ slot p, s.persisted.get? slot = some p →
    ∃ q, s.marks.get? slot = some q ∧ p ≤ q
  flushed : ∀ slot q, s.marks.get? slot = some q → s.unflushed.contains slot = false →
    s.persisted.get? slot = some q

def strays (s : Snapshot) : Table Slot Nat :=
  s.persisted.filter fun slot _ => !s.marks.contains slot

def withoutStrays (s : Snapshot) : Snapshot :=
  { s with persisted := s.persisted.filter fun slot _ => s.marks.contains slot }

inductive Mismatch (s : Snapshot) (slot : Slot) (q : Nat) : String → Prop where
  | ahead {p : Nat} : s.persisted.get? slot = some p → q < p →
      Mismatch s slot q ("scope " ++ slot.scope.label ++ " " ++ slot.visibility.word ++
        ": storage at " ++ Check.maybe (some p) ++ " ahead of memory " ++ toString q)
  | unstored : (∀ p, s.persisted.get? slot = some p → p < q) → s.unflushed.contains slot = false →
      Mismatch s slot q ("scope " ++ slot.scope.label ++ " " ++ slot.visibility.word ++
        ": flushed marker " ++ toString q ++ " persisted as " ++
        Check.maybe (s.persisted.get? slot))

variable {s : Snapshot} {slot : Slot} {p q : Nat} {message : String}

theorem get?_strays : s.strays.get? slot = some p ↔
    s.persisted.get? slot = some p ∧ s.marks.get? slot = none := by
  rw [strays, Table.get?_filter, Option.filter_eq_some_iff, Bool.not_eq_true',
    Table.contains_eq_false_iff]

theorem get?_withoutStrays : s.withoutStrays.persisted.get? slot = some p ↔
    s.persisted.get? slot = some p ∧ ∃ q, s.marks.get? slot = some q := by
  rw [withoutStrays, Table.get?_filter, Option.filter_eq_some_iff, Table.contains_iff]

theorem strays_eq_empty_iff : s.strays = .empty ↔
    ∀ slot p, s.persisted.get? slot = some p → ∃ q, s.marks.get? slot = some q := by
  constructor
  · intro h slot p hp
    refine Option.ne_none_iff_exists'.1 fun hnone => ?_
    have hstray := get?_strays.2 ⟨hp, hnone⟩
    rw [h] at hstray
    cases hstray
  · intro h
    refine Table.ext_get? fun slot => Option.eq_none_iff_forall_ne_some.2 fun p hp => ?_
    obtain ⟨hstored, hnone⟩ := get?_strays.1 hp
    obtain ⟨q, hq⟩ := h slot p hstored
    rw [hnone] at hq
    cases hq

theorem faithful_iff : s.Faithful ↔ s.withoutStrays.Faithful ∧ s.strays = .empty := by
  rw [strays_eq_empty_iff]
  constructor
  · intro h
    refine ⟨⟨fun slot p hp => h.behind slot p (get?_withoutStrays.1 hp).1,
      fun slot q hq hn => get?_withoutStrays.2 ⟨h.flushed slot q hq hn, q, hq⟩⟩, ?_⟩
    intro slot p hp
    obtain ⟨q, hq, -⟩ := h.behind slot p hp
    exact ⟨q, hq⟩
  · rintro ⟨h, hnone⟩
    exact ⟨fun slot p hp => h.behind slot p (get?_withoutStrays.2 ⟨hp, hnone slot p hp⟩),
      fun slot q hq hn => (get?_withoutStrays.1 (h.flushed slot q hq hn)).1⟩

/-! ## The check -/

theorem persistedFault_eq_some_iff :
    Check.persistedFault s slot q = some message ↔ s.Mismatch slot q message := by
  constructor
  · intro h
    simp only [Check.persistedFault] at h
    split at h
    next hahead =>
      cases h
      obtain ⟨p, hp, hlt⟩ := (Option.any_eq_true _ _).1 hahead
      rw [hp]
      exact .ahead hp (of_decide_eq_true hlt)
    next hbehind =>
      split at h
      next hflushed =>
        cases h
        rw [Bool.and_eq_true, Bool.not_eq_true', bne_iff_ne] at hflushed
        refine .unstored (fun p hp => ?_) hflushed.1
        rw [hp, Option.any_some, decide_eq_true_eq, Nat.not_lt] at hbehind
        refine Nat.lt_of_le_of_ne hbehind fun he => hflushed.2 ?_
        rw [hp, he]
      next => cases h
  · intro h
    unfold Check.persistedFault
    cases h with
    | ahead hp hlt => simp only [hp, Option.any_some, hlt, decide_true, if_true]
    | unstored hbehind hflushed =>
      have hle : (s.persisted.get? slot).any (fun p => decide (q < p)) = false := by
        rw [Option.any_eq_false]
        exact fun p hp => decide_eq_false (Nat.not_lt.2 (Nat.le_of_lt (hbehind p hp)))
      have hne : (s.persisted.get? slot != some q) = true := by
        rw [bne_iff_ne]
        exact fun he => Nat.lt_irrefl _ (hbehind q he)
      simp only [hle, hflushed, hne, Bool.false_eq_true, if_false, Bool.not_false, Bool.and_self,
        if_true]

theorem persistedFault_eq_none_iff : Check.persistedFault s slot q = none ↔
    (∀ p, s.persisted.get? slot = some p → p ≤ q) ∧
      (s.unflushed.contains slot = false → s.persisted.get? slot = some q) := by
  rw [Option.eq_none_iff_forall_ne_some]
  constructor
  · intro h
    have hbehind : ∀ p, s.persisted.get? slot = some p → p ≤ q := fun p hp =>
      Nat.not_lt.1 fun hlt => h _ (persistedFault_eq_some_iff.2 (.ahead hp hlt))
    refine ⟨hbehind, fun hn => Classical.byContradiction fun hne => ?_⟩
    refine h _ (persistedFault_eq_some_iff.2 (.unstored (fun p hp => ?_) hn))
    exact Nat.lt_of_le_of_ne (hbehind p hp) fun he => hne (he ▸ hp)
  · rintro ⟨hbehind, hstored⟩ message h
    cases persistedFault_eq_some_iff.1 h with
    | ahead hp hlt => exact Nat.not_lt.2 (hbehind _ hp) hlt
    | unstored hlt hn => exact Nat.lt_irrefl _ (hlt q (hstored hn))

/-- The check passes exactly if what is stored fits memory, strays left out. -/
theorem run_persisted_eq_none_iff :
    Check.run .persisted s = none ↔ s.withoutStrays.Faithful := by
  have hrun : Check.run .persisted s = none ↔
      ∀ slot q, s.marks.get? slot = some q → Check.persistedFault s slot q = none := by
    refine List.findSome?_eq_none_iff.trans ⟨fun h slot q hq => ?_, fun h p hp => ?_⟩
    · exact h (slot, q) ((Table.get?_eq_some_iff _).1 hq)
    · exact h p.1 p.2 ((Table.get?_eq_some_iff _).2 hp)
  rw [hrun]
  constructor
  · intro h
    constructor
    · intro slot p hp
      obtain ⟨hstored, q, hq⟩ := get?_withoutStrays.1 hp
      exact ⟨q, hq, (persistedFault_eq_none_iff.1 (h slot q hq)).1 p hstored⟩
    · intro slot q hq hn
      exact get?_withoutStrays.2 ⟨(persistedFault_eq_none_iff.1 (h slot q hq)).2 hn, q, hq⟩
  · intro h slot q hq
    refine persistedFault_eq_none_iff.2 ⟨fun p hp => ?_, fun hn => ?_⟩
    · obtain ⟨q', hq', hle⟩ := h.behind slot p (get?_withoutStrays.2 ⟨hp, q, hq⟩)
      cases hq.symm.trans hq'
      exact hle
    · exact (get?_withoutStrays.1 (h.flushed slot q hq hn)).1

theorem faithful_iff_run : s.Faithful ↔ Check.run .persisted s = none ∧ s.strays = .empty := by
  rw [faithful_iff, run_persisted_eq_none_iff]

theorem mismatch_of_run_persisted (h : Check.run .persisted s = some message) :
    ∃ slot q, s.marks.get? slot = some q ∧ s.Mismatch slot q message := by
  obtain ⟨p, hp, hfault⟩ := List.exists_of_findSome?_eq_some h
  exact ⟨p.1, p.2, (Table.get?_eq_some_iff _).2 hp, persistedFault_eq_some_iff.1 hfault⟩

/-- The check sees everything but strays: it passes exactly if what is stored fits memory once the
strays are left out, so a snapshot is faithful exactly if it passes and has no strays; and a
violation that is reported is the mismatch of a marker in memory. -/
theorem persisted_check_overlooks_strays (s : Snapshot) :
    (Check.run .persisted s = none ↔ s.withoutStrays.Faithful) ∧
    (s.Faithful ↔ Check.run .persisted s = none ∧ s.strays = .empty) ∧
    ∀ message, Check.run .persisted s = some message →
      ∃ slot q, s.marks.get? slot = some q ∧ s.Mismatch slot q message :=
  ⟨run_persisted_eq_none_iff, faithful_iff_run, fun _ => mismatch_of_run_persisted⟩

/-- A marker is stored and memory has none: the storage is ahead, and the check passes. -/
theorem persisted_check_passes_over_stray :
    let slot : Slot := ⟨.ofRoom ⟨"!r"⟩, .shared⟩
    let s : Snapshot := { persisted := .ofList [(slot, 4)] }
    Check.run .persisted s = none ∧ s.persisted.get? slot = some 4 ∧
      s.marks.get? slot = none ∧ ¬ s.Faithful := by
  intro slot s
  refine ⟨by decide, by decide, by decide, fun h => ?_⟩
  obtain ⟨q, hq, -⟩ := h.behind slot 4 (by decide)
  cases hq

/-! ## Snapshots that are taken -/

section Taken

variable {σ : Type} [Backing σ] [Lawful σ] {t t' : Tracker σ} {b : MarkerBook σ}
  {rooms : List RoomId}

structure Shows (s : Snapshot) (b : MarkerBook σ) : Prop where
  marks : ∀ slot, s.marks.get? slot = (b.marks.get? slot).map (·.sequence)
  persisted : ∀ slot,
    s.persisted.get? slot = ((Viewed.contents b.storage).get? slot).map (·.sequence)
  unflushed : ∀ slot, b.marks.contains slot = true →
    s.unflushed.contains slot = b.unflushed.contains slot

theorem marksOf_mapValues (es : List Entry) (slot : Slot) :
    (Table.ofList (es.map fun e => (e.slot, e.mark.sequence))).get? slot =
      ((MarkerBook.marksOf es).get? slot).map (·.sequence) := by
  have general : ∀ (t : Table Slot Mark) (t' : Table Slot Nat),
      (∀ slot, t'.get? slot = (t.get? slot).map (·.sequence)) →
      (t'.insertAll (es.map fun e => (e.slot, e.mark.sequence))).get? slot =
        ((t.insertAll (es.map fun e => (e.slot, e.mark))).get? slot).map (·.sequence) := by
    induction es with
    | nil => exact fun t t' h => h slot
    | cons e es ih =>
      intro t t' h
      refine ih _ _ fun slot => ?_
      classical
      rw [Table.get?_insert, Table.get?_insert]
      split
      next => rfl
      next => exact h slot
  exact general .empty .empty fun _ => rfl

theorem shows_ofMemory (rooms : List RoomId) {es : List Entry}
    (hes : MarkerBook.marksOf es = Viewed.contents t.book.storage)
    (history : Table Scope (List Nat)) :
    Shows { ofMemory t rooms with
      persisted := .ofList (es.map fun e => (e.slot, e.mark.sequence)), history } t.book where
  marks slot := Table.get?_mapValues _ _ slot
  persisted slot := by
    rw [← hes]
    exact marksOf_mapValues es slot
  unflushed slot hslot := by
    show (t.book.unflushed.filter fun slot _ => t.book.marks.contains slot).contains slot = _
    rw [Table.contains, Table.get?_filter, hslot, Table.contains]
    cases t.book.unflushed.get? slot <;> rfl

theorem shows_of_take (hs : Viewed.sound t.book.storage) (h : take t rooms = (t', .ok s)) :
    s.Shows t.book := by
  unfold take at h
  cases hlist : list t.book.storage with
  | mk answer storage =>
    rw [hlist] at h
    cases answer with
    | error why => cases h
    | ok es =>
      cases h
      exact shows_ofMemory rooms (Viewed.list_ok hs hlist).2.2 .empty

/-- A book that dropped some markers, all of them still stored, leaves nothing but strays. -/
theorem Shows.faithful_withoutStrays {b' : MarkerBook σ} (h : s.Shows b') (hb : b.Persisted)
    (hstorage : Viewed.contents b'.storage = Viewed.contents b.storage)
    (hmarks : ∀ {slot m}, b'.marks.get? slot = some m → b.marks.get? slot = some m)
    (hunflushed : ∀ {slot}, b'.marks.contains slot = true →
      b'.unflushed.contains slot = b.unflushed.contains slot) : s.withoutStrays.Faithful := by
  have hstored : ∀ slot,
      s.persisted.get? slot = ((Viewed.contents b.storage).get? slot).map (·.sequence) :=
    fun slot => hstorage ▸ h.persisted slot
  have hmarked : ∀ {slot q}, s.marks.get? slot = some q →
      ∃ m, b'.marks.get? slot = some m ∧ m.sequence = q :=
    fun {slot} _ hq => Option.map_eq_some_iff.1 ((h.marks slot).symm.trans hq)
  constructor
  · intro slot p hp
    obtain ⟨hp, q, hq⟩ := get?_withoutStrays.1 hp
    obtain ⟨m, hm, rfl⟩ := hmarked hq
    obtain ⟨m₀, hm₀, rfl⟩ := Option.map_eq_some_iff.1 ((hstored slot).symm.trans hp)
    obtain ⟨m', hm', hle⟩ := hb.behind slot m₀ hm₀
    cases (hmarks hm).symm.trans hm'
    exact ⟨m.sequence, hq, hle⟩
  · intro slot q hq hn
    obtain ⟨m, hm, rfl⟩ := hmarked hq
    have hslot : b'.marks.contains slot = true := Table.contains_iff.2 ⟨m, hm⟩
    rw [withoutStrays, h.unflushed slot hslot, hunflushed hslot] at hn
    refine get?_withoutStrays.2 ⟨?_, m.sequence, hq⟩
    rw [hstored, hb.stored hn, hmarks hm, Option.map_some]

theorem Shows.faithful (h : s.Shows b) (hb : b.Persisted) : s.Faithful := by
  refine faithful_iff.2 ⟨h.faithful_withoutStrays hb rfl id fun _ => rfl, ?_⟩
  rw [strays_eq_empty_iff]
  intro slot p hp
  obtain ⟨m₀, hm₀, -⟩ := Option.map_eq_some_iff.1 ((h.persisted slot).symm.trans hp)
  obtain ⟨m, hm, -⟩ := hb.behind slot m₀ hm₀
  exact ⟨m.sequence, by rw [h.marks, hm, Option.map_some]⟩

end Taken

/-! ## After a refused forgetting -/

theorem inner_of_storageFailed {t : Tracker (Faulty Shelf)} {room : RoomId}
    (h : (t.forget room).StorageFailed) :
    (t.forget room).tracker.book.storage.inner = t.book.storage.inner := by
  obtain ⟨why, hwhy⟩ := h
  rw [Tracker.book_forget]
  cases hcall : Backing.forget room t.book.storage with
  | mk answer f =>
    have hstorage : (t.book.forget room).1.storage = f := by
      simp only [MarkerBook.forget, hcall]
    rw [hstorage]
    cases answer with
    | ok n =>
      simp only [Tracker.forget, MarkerBook.forget, hcall] at hwhy
      cases hwhy
    | error why =>
      rcases (Faulty.passes _ _).of_error hcall with ⟨-, hinner⟩ | hforget
      · exact hinner
      · cases hforget

/-- After a forgetting that the storage refuses, the strays are the markers of the room that are
still stored, and the check passes over them. -/
theorem audit_overlooks_refused_forgetting {t t' : Tracker (Faulty Shelf)} {room : RoomId}
    {rooms : List RoomId} {s : Snapshot} (hb : t.book.WrittenThrough [])
    (hf : (t.forget room).StorageFailed) (h : take (t.forget room).tracker rooms = (t', .ok s)) :
    Check.run .persisted s = none ∧
      s.strays = ((Viewed.contents t.book.storage).filter
        fun slot _ => slot.scope.room == room).mapValues fun _ m => m.sequence := by
  have hinner := inner_of_storageFailed hf
  have hcontents : Viewed.contents (t.forget room).tracker.book.storage =
      Viewed.contents t.book.storage := by
    show Viewed.contents (t.forget room).tracker.book.storage.inner = _
    rw [hinner]
    rfl
  have hsound : Viewed.sound (t.forget room).tracker.book.storage := by
    show Viewed.sound (t.forget room).tracker.book.storage.inner
    rw [hinner]
    exact hb.sound
  have hshows := shows_of_take hsound h
  have hmarks : ∀ slot, (t.forget room).tracker.book.marks.get? slot =
      (t.book.marks.get? slot).filter fun _ => slot.scope.room != room := by
    rw [Tracker.book_forget]
    exact Table.get?_filter _ _
  constructor
  · refine run_persisted_eq_none_iff.2 (hshows.faithful_withoutStrays hb.persisted hcontents ?_ ?_)
    · intro slot m hm
      rw [hmarks] at hm
      exact (Option.filter_eq_some_iff.1 hm).1
    · intro slot hslot
      obtain ⟨m, hm⟩ := Table.contains_iff.1 hslot
      rw [hmarks] at hm
      rw [Tracker.book_forget]
      show (t.book.unflushed.filter fun slot _ => slot.scope.room != room).contains slot = _
      rw [Table.contains, Table.get?_filter, (Option.filter_eq_some_iff.1 hm).2, Table.contains]
      cases t.book.unflushed.get? slot <;> rfl
  · refine Table.ext_get? fun slot => Option.ext fun p => ?_
    rw [get?_strays, hshows.persisted, hshows.marks, hmarks, hcontents, Table.get?_mapValues,
      Table.get?_filter]
    cases hstored : (Viewed.contents t.book.storage).get? slot with
    | none => simp
    | some m₀ =>
      obtain ⟨m, hm, -⟩ := hb.behind slot m₀ hstored
      by_cases he : slot.scope.room = room <;> simp [hm, he]

end Snapshot

end ReadTracking
