import ReadTracking.Proofs.Marks
import ReadTracking.Tracker.Command

/-!
# What the steps of a turn do

Each step of a turn in one equation: which parts of the tracker it replaces and which actions it
asks for.  Reading changes the book and the send queue, receipts of other sessions change the
book alone, and markers that could not be stored are told of in the order in which they moved.
-/

set_option autoImplicit false

namespace ReadTracking

namespace Tracker

variable {σ : Type}

def queued (t : Tracker σ) (us : List Update) : SendQueue :=
  us.foldl (fun s u => s.queue ⟨u.scope, t.sendVisibility⟩ u.event u.sequence t.ambient.elapsed)
    t.sends

end Tracker

namespace Turn

variable {σ : Type}

def warnings (v : Visibility) (us : List Update) : Advance → List Action
  | .ignored | .applied => []
  | .unsaved why => us.map fun u => .unsaved u.scope v why

theorem foldl_ask (r : Turn σ) (f : Update → Action) (us : List Update) :
    us.foldl (fun r u => r.ask (f u)) r = { r with actions := r.actions ++ us.map f } := by
  induction us generalizing r with
  | nil => simp
  | cons u us ih =>
    rw [List.foldl_cons, ih]
    simp [ask]

theorem foldl_queueSend (r : Turn σ) (us : List Update) :
    us.foldl queueSend r = { r with
      tracker := { r.tracker with sends := r.tracker.queued us } } := by
  induction us generalizing r with
  | nil => rfl
  | cons u us ih => rw [List.foldl_cons, ih]; rfl

theorem foldl_ask_queueSend (r : Turn σ) (f : Update → Action) (us : List Update) :
    us.foldl (fun r u => (r.ask (f u)).queueSend u) r = { r with
      tracker := { r.tracker with sends := r.tracker.queued us }
      actions := r.actions ++ us.map f } := by
  induction us generalizing r with
  | nil => simp [Tracker.queued]
  | cons u us ih =>
    rw [List.foldl_cons, ih, List.map_cons, List.append_cons]
    rfl

theorem followLive_induction [Backing σ] {P : Turn σ → Prop} {r : Turn σ} {room : RoomId} (h : P r)
    (step : ∀ s r, s.room = room → P r → P (r.readToEnd s)) (placed : List Placed)
    (limited : Bool) : P (r.followLive room placed limited) := by
  have hstep : ∀ (b : Bool) (s : Scope) (r : Turn σ), s.room = room → P r →
      P (if b then r.readToEnd s else r) := by
    intro b s r hs h
    cases b with
    | false => exact h
    | true => exact step s r hs h
  simp only [followLive]
  split
  · exact h
  · split
    · split
      · exact hstep _ _ _ rfl h
      · exact hstep _ _ _ rfl (hstep _ _ _ rfl h)
    · exact h

theorem report_eq (r : Turn σ) (room : RoomId) : ∃ reported notices,
    r.report room = { r with tracker := { r.tracker with reported }, notices } := by
  unfold report
  dsimp only
  split
  · exact ⟨r.tracker.reported, r.notices, rfl⟩
  · exact ⟨_, _, rfl⟩

theorem get?_reported_report (r : Turn σ) (room k : RoomId) :
    (r.report room).tracker.reported.get? k =
      if k = room then some (r.tracker.roomState room) else r.tracker.reported.get? k := by
  by_cases htold : r.tracker.reported.get? room = some (r.tracker.roomState room)
  · have hreport : r.report room = r := if_pos htold
    rw [hreport]
    split
    next hk => rw [hk, htold]
    next => rfl
  · have hreport : r.report room = _ := if_neg htold
    rw [hreport]
    exact Table.get?_insert _ _ _ _

theorem tracker_finish (r : Turn σ) (room : RoomId) : (r.report room).release.tracker =
    { r.tracker with
      reported := (r.report room).tracker.reported
      sends := (r.tracker.sends.release r.tracker.ambient.elapsed).1 } := by
  obtain ⟨reported, notices, hreport⟩ := r.report_eq room
  rw [hreport]
  rfl

section Reading

variable [Backing σ] (r : Turn σ)

theorem read_of_covers {u : Update} (h : r.tracker.book.covers u.scope u.sequence = true) :
    r.read u = r := by
  simp [read, h]

theorem read_of_not_covers {u : Update}
    (h : ¬ r.tracker.book.covers u.scope u.sequence = true) :
    r.read u = { r with
      tracker := { r.tracker with
        book := (r.tracker.book.advance u .personal r.tracker.ambient.wallClock).1
        sends := r.tracker.queued [u] }
      actions := r.actions ++ warnings .personal [u]
        (r.tracker.book.advance u .personal r.tracker.ambient.wallClock).2
      dated := true } := by
  have hm := r.tracker.book.moved_advance .personal u r.tracker.ambient.wallClock
  rw [MarkerBook.isStale_eq_false_of_not_covers .personal h] at hm
  simp only [read, h]
  generalize r.tracker.book.advance u .personal r.tracker.ambient.wallClock = o at hm ⊢
  obtain ⟨b, a⟩ := o
  cases a with
  | ignored => simp [Advance.moved] at hm
  | applied =>
    simp only [warnings, List.append_nil]
    rfl
  | unsaved why => rfl

theorem readAll_eq (us : List Update) :
    r.readAll us = { r with
      tracker := { r.tracker with
        book := (r.tracker.book.advanceAll us .personal r.tracker.ambient.wallClock).1
        sends := r.tracker.queued
          (r.tracker.book.advanceAll us .personal r.tracker.ambient.wallClock).2.1 }
      actions := r.actions ++ warnings .personal
        (r.tracker.book.advanceAll us .personal r.tracker.ambient.wallClock).2.1
        (r.tracker.book.advanceAll us .personal r.tracker.ambient.wallClock).2.2
      dated := true } := by
  simp only [readAll]
  generalize r.tracker.book.advanceAll us .personal r.tracker.ambient.wallClock = o
  obtain ⟨b, moved, a⟩ := o
  cases a with
  | ignored =>
    simp only [foldl_queueSend, warnings, List.append_nil]
    rfl
  | applied =>
    simp only [foldl_queueSend, warnings, List.append_nil]
    rfl
  | unsaved why =>
    simp only [foldl_ask_queueSend _ fun u => Action.unsaved u.scope .personal why]
    rfl

theorem readElsewhere_eq (u : Update) (v : Visibility) :
    r.readElsewhere u v = { r with
      tracker := { r.tracker with
        book := (r.tracker.book.advance u v r.tracker.ambient.wallClock).1 }
      actions := r.actions ++ warnings v [u]
        (r.tracker.book.advance u v r.tracker.ambient.wallClock).2
      dated := true } := by
  simp only [readElsewhere]
  generalize r.tracker.book.advance u v r.tracker.ambient.wallClock = o
  obtain ⟨b, a⟩ := o
  cases a <;> simp [warnings, ask]

theorem readRoomElsewhere_eq (room : RoomId) (sequence : Nat) (v : Visibility) :
    r.readRoomElsewhere room sequence v = { r with
      tracker := { r.tracker with
        book := (r.tracker.book.advanceAll (floors r.tracker.chronicle room sequence) v
          r.tracker.ambient.wallClock).1 }
      actions := r.actions ++ warnings v
        (r.tracker.book.advanceAll (floors r.tracker.chronicle room sequence) v
          r.tracker.ambient.wallClock).2.1
        (r.tracker.book.advanceAll (floors r.tracker.chronicle room sequence) v
          r.tracker.ambient.wallClock).2.2
      dated := true } := by
  simp only [readRoomElsewhere]
  generalize r.tracker.book.advanceAll (floors r.tracker.chronicle room sequence) v
    r.tracker.ambient.wallClock = o
  obtain ⟨b, moved, a⟩ := o
  cases a with
  | ignored => simp [warnings]
  | applied => simp [warnings]
  | unsaved why => simp only [foldl_ask _ fun u => Action.unsaved u.scope v why]; rfl

end Reading

end Turn

namespace Tracker

variable {σ τ : Type}

theorem tick_eq [Backing σ] (t : Tracker σ) (now : Nat) :
    t.tick now = ((({ tracker := t } : Turn σ).releaseAt now).update fun t =>
      { t with book := t.book.retried }).done := by
  simp only [tick, MarkerBook.retried, Turn.update]
  split <;> rfl

theorem unreadEnds_congr {t : Tracker σ} {t' : Tracker τ}
    (hc : t'.chronicle = t.chronicle) (hm : t'.book.marks = t.book.marks) (room : RoomId) :
    t'.unreadEnds room = t.unreadEnds room := by
  simp only [unreadEnds, hc, MarkerBook.covers_congr hm]

theorem roomState_of_readTo {t : Tracker σ} {t' : Tracker τ}
    (hc : t'.chronicle = t.chronicle) (hr : ∀ s, t'.book.readTo s = t.book.readTo s)
    (room : RoomId) : t'.roomState room = t.roomState room := by
  have hs : ∀ s, countScope t.chronicle t'.book s = countScope t.chronicle t.book s := by
    intro s
    simp only [countScope, hr]
  have ht : ReadTracking.threadState t.chronicle t'.book room =
      ReadTracking.threadState t.chronicle t.book room := by
    funext root
    simp only [ReadTracking.threadState, hs]
  simp only [roomState, ReadTracking.roomState, hc, hs, ht]

theorem roomState_congr {t : Tracker σ} {t' : Tracker τ}
    (hc : t'.chronicle = t.chronicle) (hm : t'.book.marks = t.book.marks) (room : RoomId) :
    t'.roomState room = t.roomState room :=
  roomState_of_readTo hc (MarkerBook.readTo_congr hm) room

end Tracker

end ReadTracking
