import ReadTracking.Proofs.AtOnce
import ReadTracking.Proofs.Conduct
import ReadTracking.Proofs.LiveEdge
import ReadTracking.Proofs.Persistence

/-!
# Memory holds every marker

A shelf takes every marker that moves forward, and a book moves its markers forward only.  So over
a shelf no marker ever waits for a write, whatever the tracker is asked for, and a tracker that is
opened again over the shelf reads everything as far as the old one did.
-/

set_option autoImplicit false

namespace ReadTracking

open Backing

namespace MarkerBook

structure Stored (b : MarkerBook Shelf) : Prop where
  written : b.WrittenThrough []
  flushed : ∀ slot, b.unflushed.get? slot = none

namespace Stored

variable {b : MarkerBook Shelf} {now : Nat}

theorem marks_eq (h : b.Stored) : b.storage.marks = b.marks :=
  h.written.persisted.contents_eq (Table.size_eq_zero_iff.2 h.flushed)

theorem advance (h : b.Stored) {u : Update} (hu : Capacity.unlimited.update u)
    (hnow : now < Sum64.bound) (v : Visibility) : (b.advance u v now).1.Stored := by
  refine ⟨h.written.advance hu hnow v, ?_⟩
  cases hs : b.isStale v u with
  | true =>
    rw [advance_of_isStale b hs]
    exact h.flushed
  | false =>
    have hstore : ∃ s, b.advance u v now = (b.written v now u s, .applied) := by
      obtain ⟨s, -, hadvance, -⟩ := Shelf.takes.advance h.written.behind trivial hs
      exact ⟨s, hadvance⟩
    obtain ⟨s, hadvance⟩ := hstore
    rw [hadvance]
    intro slot
    show (b.unflushed.erase ⟨u.scope, v⟩).get? slot = none
    rw [Table.get?_erase, h.flushed, ite_self]

theorem advanceAll (h : b.Stored) {us : List Update} (hus : ∀ u ∈ us, Capacity.unlimited.update u)
    (hnow : now < Sum64.bound) (v : Visibility) : (b.advanceAll us v now).1.Stored := by
  refine ⟨h.written.advanceAll hus hnow v, ?_⟩
  have htaken := Shelf.storeAll_of_noneBehind (s := b.storage)
    (h.written.behind.setAll v now us).1
  simp only [MarkerBook.advanceAll, storage_setAll, htaken]
  split
  · rw [unflushed_setAll]
    exact h.flushed
  · intro slot
    rw [setsWaiting_settle.get?_foldl]
    split
    · rfl
    · rw [unflushed_setAll]
      exact h.flushed slot

theorem retried (h : b.Stored) : b.retried.Stored := by
  unfold MarkerBook.retried
  rw [if_pos (Table.isEmpty_iff.2 h.flushed)]
  exact h

theorem forget (h : b.Stored) (room : RoomId) : (b.forget room).1.Stored := by
  refine ⟨h.written.forget trivial (n := _) rfl, fun slot => ?_⟩
  show (b.unflushed.filter fun slot _ => slot.scope.room != room).get? slot = none
  rw [Table.get?_filter, h.flushed]
  rfl

theorem covers_forget (b : MarkerBook Shelf) {room : RoomId} {s : Scope} (hs : s.room ≠ room)
    (q : Nat) : (b.forget room).1.covers s q = b.covers s q := by
  have hmark : ∀ v, (b.forget room).1.mark? s v = b.mark? s v := by
    intro v
    show (b.marks.filter fun slot _ => slot.scope.room != room).get? ⟨s, v⟩ = _
    rw [Table.get?_filter]
    show ((b.mark? s v).filter fun _ => s.room != room) = b.mark? s v
    rw [bne_iff_ne.2 hs]
    cases b.mark? s v <;> rfl
  simp only [covers, readTo, effectiveSlot, hmark]

end Stored

/-- The operations of a book over a shelf keep its markers on the shelf. -/
theorem link_stored : Link .unlimited fun b b' : MarkerBook Shelf => b' = b ∧ b.Stored :=
  link_of_kept (fun h hu hnow v => h.advance hu hnow v)
    (fun h hus hnow v => h.advanceAll hus hnow v) (fun h => h.retried) fun h _ _ => h.forget _

end MarkerBook

namespace Tracker

variable {t : Tracker Shelf}

theorem not_storageFailed (t : Tracker Shelf) (c : Command) : ¬ (t.handle c).StorageFailed := by
  intro h
  obtain ⟨room, hc⟩ := forget_of_storageFailed (m := .command c) h
  cases hc
  obtain ⟨why, hwhy⟩ := h
  cases hwhy

theorem stored_handle (h : t.book.Stored) (hc : t.chronicle.Sound) (c : Command) :
    (t.handle c).tracker.book.Stored := by
  have hwithin : t.chronicle.Within .unlimited := ⟨hc, fun _ => trivial,
    fun _ => ⟨trivial, fun _ _ => trivial⟩, fun _ => trivial, fun _ => trivial, fun _ => trivial⟩
  have hlinked : t.Linked .unlimited (fun b b' => b' = b ∧ b.Stored) t :=
    ⟨rfl, rfl, rfl, rfl, hwithin, ⟨rfl, h⟩, rfl, rfl, rfl, rfl, rfl, rfl⟩
  exact (hlinked.handle MarkerBook.link_stored (Moment.within_unlimited (.command c))
    (fun _ _ => trivial)
    (t.not_storageFailed c) (t.not_storageFailed c)).tracker.book.2

theorem covers_handle {c : Command} (hc : ∀ room, c ≠ .forget room) {s : Scope} {q : Nat}
    (h : t.book.covers s q = true) : (t.handle c).tracker.book.covers s q = true :=
  (onward_meet (m := .command c) fun room e => hc room (Moment.command.inj e)).covers h

end Tracker

end ReadTracking
