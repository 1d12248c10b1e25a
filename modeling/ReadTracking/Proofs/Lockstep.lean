import ReadTracking.Backing.Rationed
import ReadTracking.Backing.Shelf
import ReadTracking.Proofs.Linked

/-!
# Failures of the storage stay unseen

Markers decide what a tracker does, and they move in memory whether or not they can be stored.
So two trackers over two storages that list the same markers at first go through every course
alike, whatever either storage answers later: a storage that fails in any pattern leaves no
trace but the warnings and what waits to be written.  Only a room that cannot be forgotten is
excepted.
-/

set_option autoImplicit false

namespace ReadTracking

variable {σ τ : Type}

structure Answer.Alike (a : Answer σ) (a' : Answer τ) : Prop where
  chronicle : a'.tracker.chronicle = a.tracker.chronicle
  marks : a'.tracker.book.marks = a.tracker.book.marks
  focus : a'.tracker.focus = a.tracker.focus
  awaited : a'.tracker.awaited = a.tracker.awaited
  held : a'.tracker.held = a.tracker.held
  sends : a'.tracker.sends = a.tracker.sends
  rooms : ∀ room, a'.tracker.roomState room = a.tracker.roomState room
  notices : a'.notices = a.notices
  reply : a'.reply.map Action.plain = a.reply.map Action.plain
  dated : a'.dated = a.dated

namespace MarkerBook

def SameMarks (b : MarkerBook σ) (b' : MarkerBook τ) : Prop := b'.marks = b.marks

variable [Backing σ] [Backing τ]

theorem marks_advance_congr {b : MarkerBook σ} {b' : MarkerBook τ} (h : b'.marks = b.marks)
    (u : Update) (v : Visibility) (now : Nat) :
    (b'.advance u v now).1.marks = (b.advance u v now).1.marks := by
  have hs := isStale_congr h v u
  cases hb : b.isStale v u with
  | true => rw [advance_of_isStale b hb, advance_of_isStale b' (hs.trans hb), h]
  | false => rw [marks_advance b hb, marks_advance b' (hs.trans hb), setMark, setMark, h]

theorem link_sameMarks (K : Capacity) : Link K (@SameMarks σ τ) where
  marks h := h
  advance h _ _ v := marks_advance_congr h _ v _
  advanceAll {b b' us now} h _ _ v := by
    rw [SameMarks, marks_advanceAll, marks_advanceAll]
    exact (setAll_congr v now us h).1
  retried {b b'} h := by
    rw [SameMarks, marks_retried, marks_retried]
    exact h
  forget {b b'} h room n n' _ _ _ := by
    simp only [SameMarks] at h
    simp only [SameMarks, forget, h]

end MarkerBook

theorem Answer.Linked.alike {K : Capacity} {a : Answer σ} {a' : Answer τ}
    (h : a.Linked K MarkerBook.SameMarks a') : a.Alike a' where
  chronicle := h.tracker.chronicle
  marks := h.tracker.book
  focus := h.tracker.focus
  awaited := h.tracker.awaited
  held := h.tracker.held
  sends := h.tracker.sends
  rooms := Tracker.roomState_congr h.tracker.chronicle h.tracker.book
  notices := h.notices
  reply := h.reply
  dated := h.dated

namespace Tracker

variable [Backing σ] [Backing τ]

/-- Trackers opened over storages that list the same markers begin alike. -/
theorem linked_of_openOver {ambient : Ambient} {policy : Policy} {reader : UserId} {s : σ}
    {s' : τ} {t : Tracker σ} {t' : Tracker τ}
    (ht : (openOver ambient policy reader s).1 = .ok t)
    (ht' : (openOver ambient policy reader s').1 = .ok t')
    (hs : (Backing.list s').1.map MarkerBook.marksOf = (Backing.list s).1.map MarkerBook.marksOf) :
    t.Linked .unlimited MarkerBook.SameMarks t' := by
  simp only [openOver, MarkerBook.openOver] at ht ht'
  generalize Backing.list s = o at ht hs
  generalize Backing.list s' = o' at ht' hs
  obtain ⟨answer, s₁⟩ := o
  obtain ⟨answer', s₁'⟩ := o'
  cases answer with
  | error why => cases ht
  | ok es =>
    cases answer' with
    | error why => cases ht'
    | ok es' =>
      cases ht
      cases ht'
      have hm : MarkerBook.marksOf es' = MarkerBook.marksOf es := by simpa [Except.map] using hs
      exact ⟨rfl, rfl, rfl, rfl, Chronicle.within_empty _ _, hm, rfl, rfl, rfl, rfl, rfl, rfl⟩

/-- Trackers over storages that list the same markers at first answer alike through every
course in which each room that is to be forgotten can be, however their storages fail. -/
theorem storage_failures_unseen {ambient : Ambient} {policy : Policy} {reader : UserId} {s : σ}
    {s' : τ} {t : Tracker σ} {t' : Tracker τ}
    (ht : (openOver ambient policy reader s).1 = .ok t)
    (ht' : (openOver ambient policy reader s').1 = .ok t')
    (hs : (Backing.list s').1.map MarkerBook.marksOf = (Backing.list s).1.map MarkerBook.marksOf)
    {ms : List Moment} (hf : ∀ a ∈ t.answers ms, ¬ a.StorageFailed)
    (hf' : ∀ a ∈ t'.answers ms, ¬ a.StorageFailed) :
    List.Forall₂ Answer.Alike (t.answers ms) (t'.answers ms) := by
  have h := linked_of_openOver ht ht' hs
  have hms : ∀ m ∈ ms, m.Within .unlimited := fun _ _ => Moment.within_unlimited _
  have hrs : ∀ m ∈ ms, m.ForgetsWithin .unlimited := fun m _ => m.forgetsWithin_unlimited
  exact (h.run (MarkerBook.link_sameMarks _) hms hrs hf hf').1.imp fun _ _ => Answer.Linked.alike

/-- A storage that fails every call after it was listed: the reading of a room cannot be stored,
and only the warning tells. -/
theorem storage_failures_unseen_without_rations :
    let book : MarkerBook Shelf := ⟨.empty, .empty, .empty⟩
    let book' : MarkerBook (Rationed Shelf) := ⟨⟨.empty, some 0, 0⟩, .empty, .empty⟩
    let t := fresh .counting {} ⟨"@me"⟩ book
    let t' := fresh .counting {} ⟨"@me"⟩ book'
    let room : RoomId := ⟨"!r"⟩
    let ms : List Moment :=
      [.command (.receive room [⟨⟨"$1"⟩, room, ⟨"@bot"⟩, 1, .plain, false⟩] false),
        .command (.viewRoom room)]
    List.Forall₂ Answer.Alike (t.answers ms) (t'.answers ms) ∧
      (t.answers ms).map (·.actions.length) = [0, 1] ∧
      (t'.answers ms).map (·.actions.length) = [0, 2] := by
  intro book book' t t' room ms
  have ht : (openOver .counting {} ⟨"@me"⟩ Shelf.empty).1 = .ok t := rfl
  have ht' : (openOver .counting {} ⟨"@me"⟩ (⟨.empty, some 1, 0⟩ : Rationed Shelf)).1 = .ok t' :=
    rfl
  refine ⟨storage_failures_unseen ht ht' rfl ?_ ?_, ?_, ?_⟩
  · decide
  · decide
  · decide
  · decide

end Tracker

end ReadTracking
