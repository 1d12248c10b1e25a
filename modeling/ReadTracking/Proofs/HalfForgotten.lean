import ReadTracking.Backing.Rationed
import ReadTracking.Backing.Shelf
import ReadTracking.Proofs.Forgetting

/-!
# A forgetting that the storage stops

The messages and the markers of a room are dropped before the storage is asked to drop them, and
everything else only after it did.  Where the storage fails, the room is therefore forgotten by
half: nothing of it is unread any more, and its receipts are still to be sent.  A forgetting that
succeeds makes up for that.
-/

set_option autoImplicit false

namespace ReadTracking

/-- An answer has dropped the messages and the markers of a room, and has left everything else as
it was. -/
structure Answer.HalfTakesOut {σ : Type} [Backing σ] (a : Answer σ) (t : Tracker σ)
    (room : RoomId) : Prop where
  emptied : a.tracker.about room = (t.about room).emptied
  unread : a.tracker.roomState room = .empty room
  intact : a.tracker.about room = t.about room ↔ (t.about room).log = none ∧
    (t.about room).marks = .empty ∧ (t.about room).unflushed = .empty
  others : ∀ room', room' ≠ room → a.tracker.about room' = t.about room'
  ambient : a.tracker.ambient = t.ambient
  policy : a.tracker.policy = t.policy
  reader : a.tracker.reader = t.reader
  listeners : a.tracker.listeners = t.listeners
  storage : a.tracker.book.storage = (Backing.forget room t.book.storage).2
  notices : a.notices = []
  anew : ∀ m e, t.chronicle.get? m.id = some e → e.message.room = room →
    (a.tracker.chronicle.append m).2 = some (a.tracker.chronicle.placing m)
  retried : (a.tracker.forget room).Accepted → (a.tracker.forget room).TakesOut t room

namespace Tracker

variable {σ : Type} {t : Tracker σ} {room : RoomId}

theorem messages_of_log_eq_none (hc : t.chronicle.Sound) (h : (t.about room).log = none) :
    (t.about room).messages = .empty := by
  apply Table.ext_get?
  intro id
  apply Option.eq_none_iff_forall_ne_some.2
  intro e he
  simp only [about, Table.get?_filter, Option.filter_eq_some_iff, beq_iff_eq] at he
  have hnone : t.chronicle.rooms.get? e.scope.room = none := by
    rw [hc.housed he.1, he.2]
    exact h
  have hstands := hc.stands he.1
  rw [Chronicle.strand, Chronicle.log, hnone] at hstands
  cases hthread : e.scope.thread with
  | none =>
    rw [hthread] at hstands
    cases hstands
  | some root =>
    rw [hthread] at hstands
    cases hstands

/-- What is left of a room after its messages and markers were dropped is what there was, if there
were none. -/
theorem emptied_about_eq_iff (hc : t.chronicle.Sound) :
    (t.about room).emptied = t.about room ↔ (t.about room).log = none ∧
      (t.about room).marks = .empty ∧ (t.about room).unflushed = .empty := by
  constructor
  · intro h
    exact ⟨(congrArg Dossier.log h).symm, (congrArg Dossier.marks h).symm,
      (congrArg Dossier.unflushed h).symm⟩
  · rintro ⟨hlog, hmarks, hunflushed⟩
    have hmessages := messages_of_log_eq_none hc hlog
    unfold Dossier.emptied
    rw [← hlog, ← hmessages, ← hmarks, ← hunflushed]

variable [Backing σ]

theorem forget_eq_of_storageFailed (h : (t.forget room).StorageFailed) :
    ∃ why, t.forget room = ({ tracker := t.dropped room } : Turn σ).refused (.storage why) := by
  obtain ⟨why, hwhy⟩ := h
  unfold forget at hwhy ⊢
  split at hwhy
  next why' hcall =>
    refine ⟨why', ?_⟩
    unfold dropped
    rw [hcall]
  next => cases hwhy

/-- A forgetting takes the whole room out, even if a half of it is gone already. -/
theorem takesOut_forget_dropped (hc : t.chronicle.Sound)
    (h : ((t.dropped room).forget room).Accepted) :
    ((t.dropped room).forget room).TakesOut t room := by
  have hdropped : (t.dropped room).chronicle.Sound := hc.forget room
  have hrest := takesOut_forget hdropped h
  exact { hrest with
    others := fun _ hne => (hrest.others _ hne).trans (about_dropped_of_ne hc hne)
    anew := by
      intro m e he hr
      have hgone : (t.dropped room).chronicle.get? m.id = none := hc.get?_forget_of_room he hr
      have hnone : ((t.dropped room).forget room).tracker.chronicle.get? m.id = none := by
        rw [chronicle_forget, hdropped.get?_forget, hgone]
        rfl
      rw [Chronicle.append_eq hnone] }

theorem halfTakesOut_forget (hc : t.chronicle.Sound) (h : (t.forget room).StorageFailed) :
    (t.forget room).HalfTakesOut t room := by
  have hunread := AtHome.roomState_forget_self t room
  obtain ⟨why, heq⟩ := forget_eq_of_storageFailed h
  rw [heq] at hunread ⊢
  have hemptied : (t.dropped room).about room = (t.about room).emptied :=
    about_dropped_self hc room
  exact {
    emptied := hemptied
    unread := hunread
    intact := by
      show (t.dropped room).about room = _ ↔ _
      rw [hemptied]
      exact emptied_about_eq_iff hc
    others := fun _ hne => about_dropped_of_ne hc hne
    ambient := rfl
    policy := rfl
    reader := rfl
    listeners := rfl
    storage := rfl
    notices := rfl
    anew := fun _ _ he hr => hc.append_forget he hr
    retried := fun hok => takesOut_forget_dropped hc hok }

/-- A forgetting that the storage refuses has dropped the messages and the markers of the room all
the same.  Its queued and waiting receipts, what was reported of it, the focus and the jump stay,
and so does every other room.  A later forgetting leaves what one that was never refused leaves. -/
theorem refused_forgetting_forgets_by_half {ambient : Ambient} {policy : Policy}
    {reader : UserId} {s : σ} (ht : (openOver ambient policy reader s).1 = .ok t)
    {ms : List Moment} (hf : ((t.after ms).forget room).StorageFailed) :
    ((t.after ms).forget room).HalfTakesOut (t.after ms) room ∧
    ∀ home : EventId → RoomId, (∀ m ∈ ms, m.AtHome home) → ∀ room', room' ≠ room →
      ((t.after ms).forget room).tracker.roomState room' = (t.after ms).roomState room' := by
  obtain ⟨book, rfl, -⟩ := eq_fresh_of_openOver ht
  refine ⟨halfTakesOut_forget (sound_after (Chronicle.sound_empty _) ms) hf, ?_⟩
  intro home hms room' hne
  have hhome : ((fresh ambient policy reader book).after ms).AtHome home :=
    (atHome_fresh ambient policy reader book).after hms
  exact hhome.roomState_forget hne

def readAndLeft : List Moment :=
  let room : RoomId := ⟨"!r"⟩
  [.command (.receive room [⟨⟨"$1"⟩, room, ⟨"@bot"⟩, 1, .plain, false⟩] false),
    .command (.viewRoom room), .command .leave,
    .command (.receive room [⟨⟨"$2"⟩, room, ⟨"@bot"⟩, 2, .plain, false⟩] false)]

theorem refused_forgetting_forgets_by_half_while_a_receipt_waits :
    let room : RoomId := ⟨"!r"⟩
    let t := fresh .counting { debounce := 500000000 } ⟨"@me"⟩
      ⟨(⟨.empty, some 0, 0⟩ : Rationed Shelf), .empty, .empty⟩
    ((t.after readAndLeft).forget room).HalfTakesOut (t.after readAndLeft) room ∧
      ((t.after readAndLeft).roomState room).unread = 1 ∧
      ((t.after readAndLeft).forget room).tracker.sends.size = 1 := by
  intro room t
  have ht : (openOver .counting { debounce := 500000000 } ⟨"@me"⟩
      (⟨.empty, some 1, 0⟩ : Rationed Shelf)).1 = .ok t := rfl
  exact ⟨(refused_forgetting_forgets_by_half ht (by decide)).1, by decide, by decide⟩

/-- The storage refuses to forget a room with an unread message, a marker and a queued receipt: of
these only the receipt is still there. -/
theorem refused_forgetting_empties_a_room :
    let room : RoomId := ⟨"!r"⟩
    let t := fresh .counting { debounce := 500000000 } ⟨"@me"⟩
      ⟨(⟨.empty, some 0, 0⟩ : Rationed Shelf), .empty, .empty⟩
    let before := t.after readAndLeft
    let a := before.forget room
    (openOver .counting { debounce := 500000000 } ⟨"@me"⟩
        (⟨.empty, some 1, 0⟩ : Rationed Shelf)).1 = .ok t ∧ a.StorageFailed ∧
      a.tracker.about room ≠ before.about room ∧
      (before.chronicle.size, a.tracker.chronicle.size) = (2, 0) ∧
      (before.book.marks.size, a.tracker.book.marks.size) = (1, 0) ∧
      (before.book.unflushed.size, a.tracker.book.unflushed.size) = (1, 0) ∧
      (before.sends.size, a.tracker.sends.size) = (1, 1) ∧
      ((before.roomState room).unread, (a.tracker.roomState room).unread) = (1, 0) := by
  decide

end Tracker

end ReadTracking
