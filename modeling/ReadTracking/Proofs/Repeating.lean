import ReadTracking.Proofs.Navigating

/-!
# Reading twice is reading once

A wish to read, or a receipt, that comes a second time at the same instant finds nothing left to
do.  The first time moved every marker that it wishes to move, told the state of the room and sent
what was due.  The second time moves no marker, and so it makes no call of the storage: any other
storage in the place of the first one is left alone as well.
-/

set_option autoImplicit false

namespace ReadTracking

variable {σ τ : Type}

/-! ## The end of a turn, once more -/

def SendQueue.Idle (s : SendQueue) (now : Nat) : Prop :=
  ∀ slot q, s.waiting? slot = some q → s.isDue now q = false

theorem SendQueue.idle_release (s : SendQueue) (now : Nat) : (s.release now).1.Idle now := by
  intro slot q hq
  rw [waiting?_release, Option.filter_eq_some_iff] at hq
  exact Bool.not_eq_eq_eq_not.mp hq.2

theorem SendQueue.Idle.release {s : SendQueue} {now : Nat} (h : s.Idle now) :
    s.release now = (s, []) := by
  have hentry : ∀ p ∈ s.pending.entries, s.isDue now p.2 = false :=
    fun p hp => h p.1 p.2 ((Table.get?_eq_some_iff _).2 hp)
  have hkept : (s.pending.filter fun _ q => !s.isDue now q) = s.pending := by
    apply Table.ext_get?
    intro slot
    rw [Table.get?_filter]
    cases hq : s.pending.get? slot with
    | none => rfl
    | some q => simp [h slot q hq]
  have hdue : (s.pending.filter fun _ q => s.isDue now q).entries = [] :=
    List.filter_eq_nil_iff.2 fun p hp => Bool.eq_false_iff.1 (hentry p hp)
  unfold SendQueue.release
  rw [hkept, hdue]
  rfl

theorem MarkerBook.advanceAll_of_isStale [Backing σ] {b : MarkerBook σ} {us : List Update}
    {v : Visibility} (h : ∀ u ∈ us, b.isStale v u = true) (now : Nat) :
    b.advanceAll us v now = (b, [], .ignored) := by
  have hnone : b.setAll v now us = (b, []) := by
    induction us with
    | nil => rfl
    | cons u us ih =>
      rw [setAll, if_pos (h u List.mem_cons_self)]
      exact ih fun w hw => h w (List.mem_cons_of_mem _ hw)
  rw [advanceAll, hnone]
  rfl

namespace Tracker

def atop (t : Tracker σ) (s : τ) : Tracker τ where
  ambient := t.ambient
  policy := t.policy
  reader := t.reader
  chronicle := t.chronicle
  book := ⟨s, t.book.marks, t.book.unflushed⟩
  sends := t.sends
  listeners := t.listeners
  reported := t.reported
  focus := t.focus
  awaited := t.awaited
  held := t.held

def Rests (t : Tracker σ) (c : Command) (dated : Bool) : Prop :=
  ∀ {τ : Type} [Backing τ] (s : τ), (t.atop s).handle c = ⟨t.atop s, [], .ok [], dated⟩

structure Concluded (t : Tracker σ) (room : RoomId) : Prop where
  told : t.reported.get? room = some (t.roomState room)
  idle : t.sends.Idle t.ambient.elapsed

theorem Concluded.atop {t : Tracker σ} {room : RoomId} (h : t.Concluded room) (s : τ) :
    (t.atop s).Concluded room where
  told := h.told.trans (congrArg some (roomState_congr rfl rfl room))
  idle := h.idle

end Tracker

namespace Turn

theorem release_of_idle {r : Turn σ} (h : r.tracker.sends.Idle r.tracker.ambient.elapsed) :
    r.release = r := by
  unfold release releaseAt
  rw [h.release]
  simp

theorem idle_release (r : Turn σ) :
    r.release.tracker.sends.Idle r.release.tracker.ambient.elapsed :=
  r.tracker.sends.idle_release _

theorem told_report (r : Turn σ) (room : RoomId) :
    (r.report room).tracker.reported.get? room =
      some ((r.report room).tracker.roomState room) := by
  obtain ⟨reported, notices, hreport⟩ := r.report_eq room
  rw [get?_reported_report, if_pos rfl, hreport]
  rfl

theorem concluded_finish (r : Turn σ) (room : RoomId) :
    (r.report room).release.tracker.Concluded room :=
  ⟨r.told_report room, idle_release _⟩

theorem finish_of_concluded {r : Turn σ} {room : RoomId} (h : r.tracker.Concluded room) :
    (r.report room).release = r := by
  have hreport : r.report room = r := if_pos h.told
  rw [hreport, release_of_idle h.idle]

theorem readAll_nil [Backing σ] (r : Turn σ) : r.readAll [] = { r with dated := true } := by
  rw [readAll_eq, MarkerBook.advanceAll_of_isStale (List.forall_mem_nil _)]
  exact congrArg (fun actions => { r with actions, dated := true }) r.actions.append_nil

theorem foldl_read_of_covers [Backing σ] {r : Turn σ} {us : List Update}
    (h : ∀ u ∈ us, r.tracker.book.covers u.scope u.sequence = true) : us.foldl read r = r := by
  induction us with
  | nil => rfl
  | cons u us ih =>
    rw [List.foldl_cons, r.read_of_covers (h u List.mem_cons_self)]
    exact ih fun w hw => h w (List.mem_cons_of_mem _ hw)

theorem tracker_foldl_read [Backing σ] (us : List Update) (r : Turn σ) : ∃ book sends,
    (us.foldl read r).tracker = { r.tracker with book, sends } := by
  induction us generalizing r with
  | nil => exact ⟨_, _, rfl⟩
  | cons u us ih =>
    obtain ⟨book, sends, hr⟩ := ih (r.read u)
    refine ⟨book, sends, hr.trans ?_⟩
    by_cases hu : r.tracker.book.covers u.scope u.sequence = true
    · rw [r.read_of_covers hu]
    · rw [r.read_of_not_covers hu]

end Turn

namespace Tracker

/-! ## Looking again -/

def look [Backing σ] (t : Tracker σ) (f : Focus) (us : List Update) : Answer σ :=
  (((us.foldl Turn.read
    { tracker := { t with awaited := none, focus := some f } }).report f.room).release).done

theorem look_of_looked [Backing σ] {t : Tracker σ} {f : Focus} {us : List Update}
    (hawaited : t.awaited = none) (hfocus : t.focus = some f)
    (hus : ∀ u ∈ us, t.book.covers u.scope u.sequence = true) (h : t.Concluded f.room) :
    t.look f us = t.idle := by
  have hsame : ({ t with awaited := none, focus := some f } : Tracker σ) = t := by
    cases t
    cases hawaited
    cases hfocus
    rfl
  unfold look
  rw [hsame, Turn.foldl_read_of_covers hus, Turn.finish_of_concluded h]
  rfl

variable [Backing σ] {t : Tracker σ} {c : Command} {room : RoomId}

theorem looked (t : Tracker σ) (f : Focus) (us : List Update) :
    (t.look f us).tracker.chronicle = t.chronicle ∧ (t.look f us).tracker.awaited = none ∧
      (t.look f us).tracker.focus = some f ∧
      ∀ u ∈ us, (t.look f us).tracker.book.covers u.scope u.sequence = true := by
  let r : Turn σ := { tracker := { t with awaited := none, focus := some f } }
  obtain ⟨book, sends, hread⟩ := Turn.tracker_foldl_read us r
  have hlook : (t.look f us).tracker = _ := (us.foldl Turn.read r).tracker_finish f.room
  rw [hlook]
  refine ⟨?_, ?_, ?_, fun u hu => ?_⟩
  · show (us.foldl Turn.read r).tracker.chronicle = _
    rw [hread]
  · show (us.foldl Turn.read r).tracker.awaited = _
    rw [hread]
  · show (us.foldl Turn.read r).tracker.focus = _
    rw [hread]
  · exact (Turn.covers_foldl_read us r _ _).2 (.inr ⟨u, hu, rfl, Nat.le_refl _⟩)

/-- What a command looks at is told by the messages alone, so it is looked at again. -/
theorem rests_of_look (f : Focus) (us : List Update)
    (hlook : ∀ {τ : Type} [Backing τ] (u : Tracker τ), u.chronicle = t.chronicle →
      u.handle c = u.look f us) : (t.handle c).tracker.Rests c false := by
  intro τ _ s
  have hconcluded : (t.look f us).tracker.Concluded f.room := Turn.concluded_finish _ _
  obtain ⟨hchronicle, hawaited, hfocus, hcovers⟩ := t.looked f us
  rw [hlook t rfl, hlook ((t.look f us).tracker.atop s) hchronicle]
  refine look_of_looked hawaited hfocus (fun u hu => ?_) (hconcluded.atop s)
  have hsame : ((t.look f us).tracker.atop s).book.marks = (t.look f us).tracker.book.marks := rfl
  exact (MarkerBook.covers_congr hsame _ _).trans (hcovers u hu)

theorem rests_viewRoom : (t.viewRoom room).tracker.Rests (.viewRoom room) false := by
  refine rests_of_look (c := .viewRoom room) ⟨room, none, true⟩ (t.looks (.viewRoom room))
    fun u hu => ?_
  have hlooks : u.looks (.viewRoom room) = t.looks (.viewRoom room) := by
    simp only [looks, hu]
  rw [← hlooks]
  exact u.viewRoom_eq_foldl room

theorem rests_viewThread {root : EventId} (h : (t.viewThread room root).Accepted) :
    (t.viewThread room root).tracker.Rests (.viewThread room root) false := by
  refine rests_of_look (c := .viewThread room root) ⟨room, some root, true⟩
    (t.looks (.viewThread room root)) fun u hu => ?_
  have hlooks : u.looks (.viewThread room root) = t.looks (.viewThread room root) := by
    simp only [looks, hu]
  rw [← hlooks]
  exact viewThread_eq_foldl (hu ▸ accepted_viewThread.1 h)

theorem rests_jump {event : EventId} {includeThreads : Bool} {e : Indexed}
    (he : t.chronicle.get? event = some e) (h : (t.jump room event includeThreads).Accepted) :
    (t.jump room event includeThreads).tracker.Rests (.jump room event includeThreads) false := by
  obtain ⟨f, hroom, hland⟩ : ∃ f : Focus, f.room = room ∧ ∀ {τ : Type} [Backing τ] (u : Tracker τ),
      u.chronicle = t.chronicle → ({ tracker := { u with awaited := none } } : Turn τ).land room e =
        [(⟨e.scope, e.message.id, e.position.sequence⟩ : Update)].foldl Turn.read
          { tracker := { u with awaited := none, focus := some f } } := by
    refine ⟨⟨room, e.scope.thread, (t.chronicle.latest e.scope).any fun head =>
      head.message.id == e.message.id⟩, rfl, fun u hu => ?_⟩
    simp only [Turn.land, hu]
    cases t.chronicle.latest e.scope <;> rfl
  refine rests_of_look (c := .jump room event includeThreads) f
    [⟨e.scope, e.message.id, e.position.sequence⟩] fun u hu => ?_
  have hjump := jump_eq_land (t := u) (hu ▸ accepted_jump.1 h) (hu ▸ he) room
  rw [hland u hu] at hjump
  rw [look, hroom]
  exact hjump

/-! ## Marking again -/

theorem dated_markRoomRead : (t.markRoomRead room).dated = true := by
  obtain ⟨reported, notices, h⟩ := t.markRoomRead_eq room
  rw [h]
  rfl

/-- What was unread is read now, so the second time there is nothing to move. -/
theorem unreadEnds_of_advanceAll {u : Tracker τ} (hchronicle : u.chronicle = t.chronicle)
    (hmarks : u.book.marks =
      (t.book.advanceAll (t.unreadEnds room) .personal t.ambient.wallClock).1.marks) :
    u.unreadEnds room = [] := by
  unfold unreadEnds
  rw [hchronicle]
  refine List.filter_eq_nil_iff.2 fun w hw => ?_
  have hread : u.book.covers w.scope w.sequence = true := by
    rw [MarkerBook.covers_congr hmarks, MarkerBook.covers_advanceAll]
    by_cases hcovered : t.book.covers w.scope w.sequence = true
    · exact .inl hcovered
    · exact .inr ⟨w, List.mem_filter.2 ⟨hw, by simp [hcovered]⟩, rfl, Nat.le_refl _⟩
  simp [hread]

theorem rests_markRoomRead : (t.markRoomRead room).tracker.Rests (.markRoomRead room) true := by
  let r : Turn σ := ({ tracker := t } : Turn σ).readAll (t.unreadEnds room)
  have hr : r = _ := ({ tracker := t } : Turn σ).readAll_eq (t.unreadEnds room)
  obtain ⟨u, hu⟩ : ∃ u, u = (r.report room).release.tracker := ⟨_, rfl⟩
  have hconcluded : u.Concluded room := hu ▸ r.concluded_finish room
  have hfirst : (t.markRoomRead room).tracker = u := by
    rw [hu]
    rfl
  rw [r.tracker_finish] at hu
  have hchronicle : u.chronicle = t.chronicle := by rw [hu, hr]
  have hbook : u.book =
      (t.book.advanceAll (t.unreadEnds room) .personal t.ambient.wallClock).1 := by
    rw [hu, hr]
  intro τ _ s
  have hends : (u.atop s).unreadEnds room = [] :=
    unreadEnds_of_advanceAll hchronicle (congrArg MarkerBook.marks hbook)
  have hsecond : (u.atop s).handle (.markRoomRead room) =
      (((({ tracker := u.atop s } : Turn τ).readAll ((u.atop s).unreadEnds room)).report
        room).release).done := rfl
  rw [hfirst, hsecond, hends, Turn.readAll_nil, Turn.finish_of_concluded (hconcluded.atop s)]
  rfl

/-! ## The same receipt again -/

end Tracker

namespace Turn

theorem applyReceipt_of_reaches [Backing σ] {r : Turn σ} {w : Update} {v : Visibility}
    {reach : Reach} (h : ∀ x ∈ Wish.ofReceipt r.tracker.chronicle w v reach,
      Reaches r.tracker.book.marks x.slot x.update.sequence) :
    r.applyReceipt w v reach = { r with dated := true } := by
  cases reach with
  | scope =>
    have hstale : r.tracker.book.isStale v w = true :=
      MarkerBook.isStale_iff_reaches.2 (h ⟨v, w⟩ (List.mem_singleton.2 rfl))
    show r.readElsewhere w v = _
    rw [readElsewhere_eq, MarkerBook.advance_of_isStale _ hstale]
    exact congrArg (fun actions => { r with actions, dated := true }) r.actions.append_nil
  | room =>
    show r.readRoomElsewhere w.scope.room w.sequence v = _
    have hstale : ∀ u ∈ floors r.tracker.chronicle w.scope.room w.sequence,
        r.tracker.book.isStale v u = true := fun u hu =>
      MarkerBook.isStale_iff_reaches.2 (h ⟨v, u⟩ (List.mem_map.2 ⟨u, hu, rfl⟩))
    rw [readRoomElsewhere_eq, MarkerBook.advanceAll_of_isStale hstale]
    exact congrArg (fun actions => { r with actions, dated := true }) r.actions.append_nil

theorem dated_applyReceipt [Backing σ] (r : Turn σ) (w : Update) (v : Visibility) (reach : Reach) :
    (r.applyReceipt w v reach).dated = true := by
  cases reach with
  | scope => exact congrArg dated (r.readElsewhere_eq w v)
  | room => exact congrArg dated (r.readRoomElsewhere_eq w.scope.room w.sequence v)

/-- A receipt that waits already, or that there is no place for, changes nothing. -/
theorem hold_of_held_eq {r : Turn σ} {r' : Turn τ} {room : RoomId} {event : EventId}
    {v : Visibility} {reach : Reach}
    (h : r'.tracker.held = (r.hold room event v reach).tracker.held) :
    r'.hold room event v reach = r' := by
  rcases r'.hold_cases room event v reach with ⟨-, -, hsame⟩ | ⟨hplace, hheld⟩
  · exact hsame
  rcases r.hold_cases room event v reach with ⟨hnone, hfull, hfirst⟩ | ⟨-, hfirst⟩
  · -- The first was dropped, and there is no more place than before.
    rw [hfirst] at h
    rw [h] at hplace
    exact absurd (hplace hnone) (Nat.not_lt_of_le hfull)
  · rw [hfirst] at h
    let waiting := ((r.tracker.held.get? event).getD ⟨room, []⟩).add (v, reach)
    have hwaiting : r'.tracker.held.get? event = some waiting := by
      rw [h]
      exact Table.get?_insert_self _ _ _
    have hadd : waiting.add (v, reach) = waiting := if_pos (Held.mem_add.2 (.inl rfl))
    rw [hheld, hwaiting, Option.getD_some, hadd, Table.insert_of_get? hwaiting]

end Turn

namespace Tracker

variable [Backing σ] {t : Tracker σ} {room : RoomId} {user : UserId} {event : EventId}
  {v : Visibility} {reach : Reach}

theorem receipt_eq_of_stranger (huser : user ≠ t.reader) :
    t.receipt room user event v reach = t.idle := by
  simp only [receipt, huser, if_false]
  rfl

theorem receipt_eq_of_missing (huser : user = t.reader) (he : t.chronicle.get? event = none) :
    t.receipt room user event v reach =
      ((({ tracker := t } : Turn σ).hold room event v reach).release).done := by
  simp only [receipt, huser, if_true, he]

theorem receipt_eq_of_indexed (huser : user = t.reader) {e : Indexed}
    (he : t.chronicle.get? event = some e) : t.receipt room user event v reach =
      (((({ tracker := t } : Turn σ).applyReceipt ⟨e.scope, event, e.position.sequence⟩ v
        reach).report e.scope.room).release).done := by
  simp only [receipt, huser, if_true, he]

theorem rests_receipt_of_stranger (huser : user ≠ t.reader) :
    (t.receipt room user event v reach).tracker.Rests (.receipt room user event v reach) false := by
  rw [receipt_eq_of_stranger huser]
  intro τ _ s
  exact receipt_eq_of_stranger huser

theorem rests_receipt_of_missing (huser : user = t.reader) (he : t.chronicle.get? event = none) :
    (t.receipt room user event v reach).tracker.Rests (.receipt room user event v reach) false := by
  let r : Turn σ := ({ tracker := t } : Turn σ).hold room event v reach
  have hr : r.tracker.reader = t.reader ∧ r.tracker.chronicle = t.chronicle := by
    rcases ({ tracker := t } : Turn σ).hold_cases room event v reach with ⟨-, -, h⟩ | ⟨-, h⟩
    · exact ⟨congrArg (·.tracker.reader) h, congrArg (·.tracker.chronicle) h⟩
    · exact ⟨congrArg (·.tracker.reader) h, congrArg (·.tracker.chronicle) h⟩
  obtain ⟨u, hu⟩ : ∃ u, u = r.release.tracker := ⟨_, rfl⟩
  have hreader : user = u.reader := huser.trans (hu ▸ hr.1.symm)
  have hmissing : u.chronicle.get? event = none := by
    rw [hu]
    exact (congrArg (·.get? event) hr.2).trans he
  have hheld : u.held = r.tracker.held := by rw [hu]; rfl
  have hidle : u.sends.Idle u.ambient.elapsed := hu ▸ r.idle_release
  have hfirst : (t.receipt room user event v reach).tracker = u := by
    rw [receipt_eq_of_missing huser he, hu]
    rfl
  rw [hfirst]
  intro τ _ s
  have hhold : ({ tracker := u.atop s } : Turn τ).hold room event v reach =
      { tracker := u.atop s } := Turn.hold_of_held_eq hheld
  have hrelease : ({ tracker := u.atop s } : Turn τ).release = { tracker := u.atop s } :=
    Turn.release_of_idle hidle
  refine (receipt_eq_of_missing (t := u.atop s) hreader hmissing).trans ?_
  rw [hhold, hrelease]
  rfl

theorem rests_receipt_of_indexed (huser : user = t.reader) {e : Indexed}
    (he : t.chronicle.get? event = some e) :
    (t.receipt room user event v reach).dated = true ∧
      (t.receipt room user event v reach).tracker.Rests
        (.receipt room user event v reach) true := by
  let w : Update := ⟨e.scope, event, e.position.sequence⟩
  let r : Turn σ := ({ tracker := t } : Turn σ).applyReceipt w v reach
  have hgrants := ({ tracker := t } : Turn σ).grants_applyReceipt w v reach
  obtain ⟨u, hu⟩ : ∃ u, u = (r.report e.scope.room).release.tracker := ⟨_, rfl⟩
  have hconcluded : u.Concluded e.scope.room := hu ▸ r.concluded_finish e.scope.room
  rw [r.tracker_finish] at hu
  have hreader : user = u.reader := by
    rw [hu, huser]
    exact hgrants.reader.symm
  have hchronicle : u.chronicle = t.chronicle := by
    rw [hu]
    exact hgrants.chronicle
  have hmarks : u.book.marks = r.tracker.book.marks := by rw [hu]
  have hfirst : (t.receipt room user event v reach).tracker = u := by
    rw [receipt_eq_of_indexed huser he, hu]
    exact r.tracker_finish e.scope.room
  rw [hfirst]
  constructor
  · obtain ⟨reported, notices, hreport⟩ := r.report_eq e.scope.room
    rw [receipt_eq_of_indexed huser he]
    show (r.report e.scope.room).release.dated = true
    rw [hreport]
    exact Turn.dated_applyReceipt _ w v reach
  · intro τ _ s
    have hreaches : ∀ x ∈ Wish.ofReceipt (u.atop s).chronicle w v reach,
        Reaches (u.atop s).book.marks x.slot x.update.sequence := by
      intro x hx
      show Reaches u.book.marks _ _
      rw [hmarks, hgrants.marks]
      refine Wish.reaches_grantAll.2 (.inr ⟨x, ?_, rfl, Nat.le_refl _⟩)
      rwa [← hchronicle]
    have hstill : ({ tracker := u.atop s } : Turn τ).applyReceipt w v reach =
        { tracker := u.atop s, dated := true } := Turn.applyReceipt_of_reaches hreaches
    refine (receipt_eq_of_indexed (t := u.atop s) hreader (hchronicle ▸ he)).trans ?_
    rw [hstill, Turn.finish_of_concluded (hconcluded.atop s)]
    rfl

end Tracker

/-! ## Any of them again -/

def Command.ReadsIn (c : Chronicle) : Command → Prop
  | .markRoomRead _ | .viewRoom _ | .viewThread _ _ | .receipt _ _ _ _ _ => True
  | .jump _ event _ => (c.get? event).isSome = true
  | .closeThread | .leave | .supply _ _ | .receive _ _ _ | .backfill _ _ _ | .sendFailed _ _ _
  | .forget _ | .tick _ => False

namespace Tracker

variable [Backing σ]

/-- Whatever a wish to read or a receipt leaves behind, also where it could not be stored, the same
again at the same instant is accepted, asks for nothing and tells nobody.  It leaves all as it is,
and whatever storage there is, it does not call it.  It reads the wall clock only if the first did.
-/
theorem reading_twice_is_reading_once {t : Tracker σ} {c : Command}
    (hc : c.ReadsIn t.chronicle) (h : (t.handle c).Accepted) :
    ∃ dated, (dated = true → (t.handle c).dated = true) ∧
      (t.handle c).tracker.handle c = ⟨(t.handle c).tracker, [], .ok [], dated⟩ ∧
      (t.handle c).tracker.Rests c dated := by
  suffices hrests : ∃ dated, (dated = true → (t.handle c).dated = true) ∧
      (t.handle c).tracker.Rests c dated by
    obtain ⟨dated, hdated, hrests⟩ := hrests
    exact ⟨dated, hdated, hrests (t.handle c).tracker.book.storage, hrests⟩
  cases c with
  | markRoomRead room => exact ⟨true, fun _ => dated_markRoomRead, rests_markRoomRead⟩
  | viewRoom room => exact ⟨false, nofun, rests_viewRoom⟩
  | viewThread room root => exact ⟨false, nofun, rests_viewThread h⟩
  | jump room event includeThreads =>
    obtain ⟨e, he⟩ := Option.isSome_iff_exists.1 hc
    exact ⟨false, nofun, rests_jump he h⟩
  | receipt room user event v reach =>
    by_cases huser : user = t.reader
    · cases he : t.chronicle.get? event with
      | none => exact ⟨false, nofun, rests_receipt_of_missing huser he⟩
      | some e =>
        obtain ⟨hdated, hrests⟩ := rests_receipt_of_indexed huser he
        exact ⟨true, fun _ => hdated, hrests⟩
    · exact ⟨false, nofun, rests_receipt_of_stranger huser⟩
  | closeThread | leave | supply | receive | backfill | sendFailed | forget | tick => cases hc

/-- A jump and a receipt for the whole room while the storage fails.  The jump tells that its marker
is not stored and sends its receipt; the second jump does neither. -/
theorem reading_twice_is_reading_once_without_rations :
    let room : RoomId := ⟨"!r"⟩
    let said (id : String) (q : Nat) : Message :=
      ⟨⟨id⟩, room, ⟨"@bot"⟩, q, .plain, false⟩
    let t := (fresh .counting {} ⟨"@me"⟩ (⟨⟨.empty, some 0, 0⟩, .empty, .empty⟩ :
      MarkerBook (Rationed Shelf))).after
      [.subscribe, .command (.receive room [said "$1" 1, said "$2" 2, said "$3" 3] true)]
    let jump : Command := .jump room ⟨"$1"⟩ false
    let receipt : Command := .receipt room ⟨"@me"⟩ ⟨"$2"⟩ .shared .room
    let a := t.handle jump
    let b := a.tracker.handle receipt
    a.reply = .ok [.unsaved (.ofRoom room) .personal (.io "disk unavailable #1"),
        .send (.ofRoom room) ⟨"$1"⟩ .shared] ∧
      b.reply = .ok [.unsaved (.ofRoom room) .shared (.io "disk unavailable #2")] ∧
      (∃ dated, a.tracker.handle jump = ⟨a.tracker, [], .ok [], dated⟩ ∧
        a.tracker.Rests jump dated) ∧
      ∃ dated, b.tracker.handle receipt = ⟨b.tracker, [], .ok [], dated⟩ ∧
        b.tracker.Rests receipt dated := by
  intro room said t jump receipt a b
  have hindexed : (t.chronicle.get? ⟨"$1"⟩).isSome = true := by decide +kernel
  have ha : a.reply = .ok [.unsaved (.ofRoom room) .personal (.io "disk unavailable #1"),
      .send (.ofRoom room) ⟨"$1"⟩ .shared] := by decide +kernel
  have hb : b.reply = .ok [.unsaved (.ofRoom room) .shared (.io "disk unavailable #2")] := by
    decide +kernel
  obtain ⟨da, -, hjump⟩ := reading_twice_is_reading_once (t := t) (c := jump) hindexed ⟨_, ha⟩
  obtain ⟨db, -, hreceipt⟩ :=
    reading_twice_is_reading_once (t := a.tracker) (c := receipt) trivial ⟨_, hb⟩
  exact ⟨ha, hb, ⟨da, hjump⟩, ⟨db, hreceipt⟩⟩

end Tracker

end ReadTracking
