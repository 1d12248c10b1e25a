import ReadTracking.Proofs.Navigating

/-!
# Loading first and jumping after

A jump to a message that is not indexed asks for the messages around it and lands when they come.
It ends where it would have ended had the messages come before it.  What comes with them looks at
neither the queue, nor the reports, nor the place where the user looks, so it does not matter that
the jump has touched these before; and a room that is reported twice is told of as it is last.
-/

set_option autoImplicit false

namespace ReadTracking

variable {σ : Type}

namespace Tracker

/-- Two trackers agree in what is read and in what decides what is read.  They may have different
chance, send different receipts, have reported different states and look at different rooms. -/
structure Abreast (t t' : Tracker σ) : Prop where
  elapsed : t'.ambient.elapsed = t.ambient.elapsed
  policy : t'.policy = t.policy
  reader : t'.reader = t.reader
  chronicle : t'.chronicle = t.chronicle
  book : t'.book = t.book
  listeners : t'.listeners = t.listeners
  held : t'.held = t.held

namespace Abreast

variable {t t' : Tracker σ}

theorem wallClock (h : t.Abreast t') : t'.ambient.wallClock = t.ambient.wallClock := by
  unfold Ambient.wallClock Ambient.elapsedMillis
  rw [h.elapsed]

theorem roomState (h : t.Abreast t') (room : RoomId) : t'.roomState room = t.roomState room :=
  roomState_congr h.chronicle (congrArg MarkerBook.marks h.book) room

theorem whatever (h : t.Abreast t') {sends sends' : SendQueue}
    {reported reported' : Table RoomId RoomState} {focus focus' : Option Focus}
    {awaited awaited' : Option Awaited} :
    ({ t with sends, reported, focus, awaited } : Tracker σ).Abreast
      { t' with sends := sends', reported := reported', focus := focus', awaited := awaited' } :=
  { h with }

theorem eq (h : t.Abreast t') (hsends : t'.sends = t.sends) (hreported : t'.reported = t.reported)
    (hfocus : t'.focus = t.focus) (hawaited : t'.awaited = t.awaited) :
    t' = { t with ambient := t'.ambient } := by
  obtain ⟨-, hpolicy, hreader, hchronicle, hbook, hlisteners, hheld⟩ := h
  cases t
  cases t'
  cases hpolicy
  cases hreader
  cases hchronicle
  cases hbook
  cases hlisteners
  cases hheld
  cases hsends
  cases hreported
  cases hfocus
  cases hawaited
  rfl

end Abreast

end Tracker

/-! ## What comes with messages -/

namespace Turn

section

variable [Backing σ] {r r' : Turn σ} (h : r.tracker.Abreast r'.tracker)

include h

theorem abreast_applyReceipt (u : Update) (v : Visibility) (reach : Reach) :
    (r.applyReceipt u v reach).tracker.Abreast (r'.applyReceipt u v reach).tracker := by
  cases reach with
  | scope =>
    show (r.readElsewhere u v).tracker.Abreast (r'.readElsewhere u v).tracker
    rw [readElsewhere_eq, readElsewhere_eq, h.wallClock, h.book]
    exact { h with book := rfl }
  | room =>
    show (r.readRoomElsewhere _ _ v).tracker.Abreast (r'.readRoomElsewhere _ _ v).tracker
    rw [readRoomElsewhere_eq, readRoomElsewhere_eq, h.wallClock, h.book, h.chronicle]
    exact { h with book := rfl }

theorem abreast_readOwn (p : Placed) : (r.readOwn p).tracker.Abreast (r'.readOwn p).tracker := by
  unfold readOwn
  dsimp only
  rw [h.chronicle, h.reader, h.policy]
  split
  · exact h
  · split
    · exact abreast_applyReceipt h ⟨p.scope, p.id, p.position.sequence⟩ .shared .scope
    · exact h

theorem abreast_releaseHeld (p : Placed) :
    (r.releaseHeld p).tracker.Abreast (r'.releaseHeld p).tracker := by
  unfold releaseHeld
  rw [h.held]
  split
  · exact h
  · next held _ =>
    have hreceipts : ∀ (receipts : List (Visibility × Reach)) {r r' : Turn σ},
        r.tracker.Abreast r'.tracker →
        (receipts.foldl (fun r w => r.applyReceipt ⟨p.scope, p.id, p.position.sequence⟩ w.1 w.2)
          r).tracker.Abreast
        (receipts.foldl (fun r w => r.applyReceipt ⟨p.scope, p.id, p.position.sequence⟩ w.1 w.2)
          r').tracker := by
      intro receipts
      induction receipts with
      | nil => exact fun h => h
      | cons w receipts ih => exact fun h => ih (abreast_applyReceipt h _ w.1 w.2)
    refine hreceipts held.receipts { h with held := ?_ }
    show r'.tracker.held.erase p.id = r.tracker.held.erase p.id
    rw [h.held]

theorem abreast_afterPlacing (placed : List Placed) :
    (r.afterPlacing placed).tracker.Abreast (r'.afterPlacing placed).tracker := by
  induction placed generalizing r r' with
  | nil => exact h
  | cons p placed ih => exact ih (abreast_releaseHeld (abreast_readOwn h p) p)

/-! ## Landing -/

theorem read_of_abreast (hsends : r'.tracker.sends = r.tracker.sends) (u : Update) :
    ∃ book sends, (r.read u).tracker = { r.tracker with book, sends } ∧
      (r'.read u).tracker = { r'.tracker with book, sends } := by
  by_cases hu : r.tracker.book.covers u.scope u.sequence = true
  · have hu' : r'.tracker.book.covers u.scope u.sequence = true := h.book ▸ hu
    refine ⟨r.tracker.book, r.tracker.sends, ?_, ?_⟩
    · rw [r.read_of_covers hu]
    · rw [r'.read_of_covers hu', ← h.book, ← hsends]
  · have hu' : ¬ r'.tracker.book.covers u.scope u.sequence = true := h.book ▸ hu
    have hqueued : r'.tracker.queued [u] = r.tracker.queued [u] := by
      simp only [Tracker.queued, Tracker.sendVisibility, hsends, h.policy, h.elapsed]
    refine ⟨(r.tracker.book.advance u .personal r.tracker.ambient.wallClock).1,
      r.tracker.queued [u], ?_, ?_⟩
    · rw [r.read_of_not_covers hu]
    · rw [r'.read_of_not_covers hu', h.book, h.wallClock, hqueued]

theorem land_of_abreast (hsends : r'.tracker.sends = r.tracker.sends) (room : RoomId)
    (e : Indexed) : ∃ focus book sends,
      (r.land room e).tracker = { r.tracker with focus, book, sends } ∧
        (r'.land room e).tracker = { r'.tracker with focus, book, sends } := by
  obtain ⟨focus, hland, hland'⟩ : ∃ focus,
      r.land room e = (r.update fun t => { t with focus }).read
        ⟨e.scope, e.message.id, e.position.sequence⟩ ∧
      r'.land room e = (r'.update fun t => { t with focus }).read
        ⟨e.scope, e.message.id, e.position.sequence⟩ := by
    refine ⟨_, rfl, ?_⟩
    unfold land
    rw [h.chronicle]
  have hlook : (r.update fun t => { t with focus }).tracker.Abreast
      (r'.update fun t => { t with focus }).tracker := h.whatever
  obtain ⟨book, sends, hread, hread'⟩ :=
    read_of_abreast hlook hsends ⟨e.scope, e.message.id, e.position.sequence⟩
  refine ⟨focus, book, sends, ?_, ?_⟩
  · rw [hland]
    exact hread
  · rw [hland']
    exact hread'

omit [Backing σ] in
theorem finish_of_abreast (hsends : r'.tracker.sends = r.tracker.sends)
    (hfocus : r'.tracker.focus = r.tracker.focus)
    (hawaited : r'.tracker.awaited = r.tracker.awaited) (room : RoomId)
    (hreported : ∀ k, k ≠ room → r'.tracker.reported.get? k = r.tracker.reported.get? k) :
    (r'.report room).release.tracker =
      { (r.report room).release.tracker with ambient := r'.tracker.ambient } := by
  have htold : (r'.report room).tracker.reported = (r.report room).tracker.reported := by
    refine Table.ext_get? fun k => ?_
    rw [get?_reported_report, get?_reported_report, h.roomState]
    split
    next => rfl
    next hk => exact hreported k hk
  rw [tracker_finish, tracker_finish, htold, hsends, h.elapsed]
  exact h.whatever.eq rfl rfl hfocus hawaited

end

end Turn

namespace Tracker

variable [Backing σ] {t : Tracker σ} {room : RoomId} {event : EventId} {messages : List Message}

section

variable {request : Nat} {includeThreads : Bool} {c : Chronicle} {placed : List Placed}
  (ha : t.awaited = some ⟨request, room, event, includeThreads⟩)
  (hc : t.chronicle.ingest room messages false = (c, placed))

include ha hc

/-- The answer that a jump waits for, with the message that it waits for. -/
theorem supply_eq_land (hbar : Turn.barrier c event includeThreads = none) {e : Indexed}
    (he : c.get? event = some e) : t.supply request messages =
      ((((({ tracker := { t with chronicle := c, awaited := none } } : Turn σ).afterPlacing
        placed).land room e).report room).release).done := by
  simp only [supply, ha, if_true, hc, hbar, he]

theorem supply_refused {root : EventId}
    (hbar : Turn.barrier c event includeThreads = some root) :
    ¬ (t.supply request messages).Accepted := by
  simp only [supply, ha, if_true, hc, hbar]
  exact Turn.not_accepted_refused _ _

end

/-- Where a jump asks, it leaves what is read and decides alone. -/
theorem jump_of_missing (he : t.chronicle.get? event = none) (includeThreads : Bool) :
    (t.jump room event includeThreads).Accepted ∧
      (t.jump room event includeThreads).requests = [t.ambient.number.2] ∧
      (t.jump room event includeThreads).tracker =
        { t with
          ambient := t.ambient.number.1
          awaited := some ⟨t.ambient.number.2, room, event, includeThreads⟩
          focus := some ⟨room, none, false⟩
          sends := (t.sends.release t.ambient.elapsed).1 } := by
  have hbar : Turn.barrier t.chronicle event includeThreads = none := by
    unfold Turn.barrier Chronicle.scope?
    rw [he]
    cases includeThreads <;> rfl
  refine ⟨accepted_jump.2 hbar, ?_, ?_⟩
  · unfold Answer.requests Answer.actions jump
    simp only [hbar, he]
    exact Turn.request?_release _
  · simp only [jump, hbar, he]
    rfl

theorem tracker_backfill {c : Chronicle} {placed : List Placed}
    (hc : t.chronicle.ingest room messages false = (c, placed)) :
    (t.backfill room messages none).tracker =
      (((({ tracker := { t with chronicle := c } } : Turn σ).afterPlacing placed).report
        room).release).tracker := by
  simp only [backfill, hc]
  rfl

theorem chronicle_backfill {c : Chronicle} {placed : List Placed}
    (hc : t.chronicle.ingest room messages false = (c, placed)) :
    (t.backfill room messages none).tracker.chronicle = c := by
  rw [tracker_backfill hc, Turn.tracker_finish]
  exact (Turn.aside_afterPlacing _ placed).chronicle

/-- Whether the receipts that are due go out before the messages come or after, the messages leave
the same. -/
theorem abreast_backfill {c : Chronicle} {placed : List Placed}
    (hc : t.chronicle.ingest room messages false = (c, placed)) {t' : Tracker σ}
    (h : t.Abreast t') (hsends : t'.sends = (t.sends.release t.ambient.elapsed).1)
    (hreported : t'.reported = t.reported) :
    ∃ r : Turn σ, r = Turn.afterPlacing
        { tracker := { t' with chronicle := c, awaited := none } } placed ∧
      (t.backfill room messages none).tracker.Abreast r.tracker ∧
      r.tracker.sends = (t.backfill room messages none).tracker.sends ∧
      ∀ k, k ≠ room → r.tracker.reported.get? k =
        (t.backfill room messages none).tracker.reported.get? k := by
  let before : Turn σ := { tracker := { t with chronicle := c } }
  let behind : Turn σ := { tracker := { t' with chronicle := c, awaited := none } }
  have hstart : before.tracker.Abreast behind.tracker :=
    ⟨h.elapsed, h.policy, h.reader, rfl, h.book, h.listeners, h.held⟩
  have hplaced := Turn.abreast_afterPlacing hstart placed
  have haside := before.aside_afterPlacing placed
  have haside' := behind.aside_afterPlacing placed
  rw [tracker_backfill hc, Turn.tracker_finish]
  refine ⟨behind.afterPlacing placed, rfl, ?_, ?_, fun k hk => ?_⟩
  · exact hplaced.whatever
  · rw [haside'.sends, haside.sends, haside.ambient]
    exact hsends
  · rw [Turn.get?_reported_report, if_neg hk, haside'.reported, haside.reported]
    exact congrArg (·.get? k) hreported

theorem supply_eq_jump (he : t.chronicle.get? event = none) {includeThreads : Bool}
    {c : Chronicle} {placed : List Placed}
    (hc : t.chronicle.ingest room messages false = (c, placed))
    (hbar : Turn.barrier c event includeThreads = none) {e : Indexed}
    (hfound : c.get? event = some e) :
    ((t.jump room event includeThreads).tracker.supply t.ambient.number.2 messages).tracker =
      { ((t.backfill room messages none).tracker.jump room event includeThreads).tracker with
        ambient := (t.jump room event includeThreads).tracker.ambient } := by
  let asked : Tracker σ :=
    { t with
      ambient := t.ambient.number.1
      awaited := some ⟨t.ambient.number.2, room, event, includeThreads⟩
      focus := some ⟨room, none, false⟩
      sends := (t.sends.release t.ambient.elapsed).1 }
  have hasked : (t.jump room event includeThreads).tracker = asked :=
    (jump_of_missing he includeThreads).2.2
  have hstart : t.Abreast asked := ⟨rfl, rfl, rfl, rfl, rfl, rfl, rfl⟩
  obtain ⟨r', hr', hbeside, hsends, hreported⟩ := abreast_backfill hc hstart rfl rfl
  have haside : Turn.Aside _ r' := hr' ▸ Turn.aside_afterPlacing _ placed
  have hchronicle := chronicle_backfill hc
  generalize (t.backfill room messages none).tracker = loaded
    at hbeside hsends hreported hchronicle ⊢
  let r : Turn σ := { tracker := { loaded with awaited := none } }
  have hfree : r.tracker.Abreast r'.tracker := hbeside.whatever
  have hdirect : (loaded.jump room event includeThreads).tracker =
      ((r.land room e).report room).release.tracker := by
    rw [jump_eq_land (hchronicle.symm ▸ hbar) (hchronicle.symm ▸ hfound)]
    rfl
  have hanswered : (asked.supply t.ambient.number.2 messages).tracker =
      ((r'.land room e).report room).release.tracker := by
    rw [supply_eq_land (t := asked) rfl hc hbar hfound, hr']
    rfl
  obtain ⟨focus, book, sends, hland, hland'⟩ := Turn.land_of_abreast hfree hsends room e
  have hchance : asked.ambient = (r'.land room e).tracker.ambient := by
    rw [hland']
    exact haside.ambient.symm
  rw [hasked, hanswered, hdirect, hchance]
  apply Turn.finish_of_abreast
  · rw [hland, hland']
    exact ⟨hfree.elapsed, hfree.policy, hfree.reader, hfree.chronicle, rfl, hfree.listeners,
      hfree.held⟩
  · rw [hland, hland']
  · rw [hland, hland']
  · rw [hland, hland']
    exact haside.awaited
  · rw [hland, hland']
    exact hreported

/-- A jump to a message that is not indexed is accepted and asks once.  Answered with messages that
bring its target, it ends as if they had come by themselves and the jump after them: it is accepted
if that one is, and then the trackers and their storages are the same but for the random number
that the request took. -/
theorem asking_then_landing_is_loading_first (room : RoomId) {event : EventId}
    (includeThreads : Bool) {messages : List Message} (he : t.chronicle.get? event = none)
    (hm : ∃ m ∈ messages, m.id = event ∧ m.room = room) :
    let asked := t.handle (.jump room event includeThreads)
    let loaded := t.handle (.backfill room messages none)
    let direct := loaded.tracker.handle (.jump room event includeThreads)
    asked.Accepted ∧ loaded.Accepted ∧ ∃ request, asked.requests = [request] ∧
      let answered := asked.tracker.handle (.supply request messages)
      (answered.Accepted ↔ direct.Accepted) ∧
        (answered.Accepted →
          answered.tracker = { direct.tracker with ambient := asked.tracker.ambient } ∧
            ∀ room', answered.tracker.roomState room' = direct.tracker.roomState room') := by
  intro asked loaded direct
  obtain ⟨haccepted, hrequests, htracker⟩ :
      asked.Accepted ∧ asked.requests = [t.ambient.number.2] ∧ asked.tracker = _ :=
    jump_of_missing he includeThreads
  refine ⟨haccepted, ⟨_, rfl⟩, t.ambient.number.2, hrequests, ?_⟩
  obtain ⟨c, placed, hc⟩ : ∃ c placed, t.chronicle.ingest room messages false = (c, placed) :=
    ⟨_, _, rfl⟩
  obtain ⟨e, hfound⟩ : ∃ e, c.get? event = some e := by
    obtain ⟨m, hm, rfl, hroom⟩ := hm
    let b : Batch := ⟨room, messages, false, none⟩
    have hindexed : ∃ e, (t.chronicle.take b).1.get? m.id = some e :=
      Chronicle.exists_get?_take hm hroom
    simpa only [b, Chronicle.take, hc] using hindexed
  have haccepts : direct.Accepted ↔ Turn.barrier c event includeThreads = none := by
    rw [← chronicle_backfill hc]
    exact accepted_jump
  have hingest : asked.tracker.chronicle.ingest room messages false = (c, placed) := by
    rw [htracker]
    exact hc
  have hawaited : asked.tracker.awaited =
      some ⟨t.ambient.number.2, room, event, includeThreads⟩ := by
    rw [htracker]
  intro answered
  cases hbar : Turn.barrier c event includeThreads with
  | some root =>
    have hrefused : ¬ answered.Accepted := supply_refused hawaited hingest hbar
    rw [haccepts, hbar]
    exact ⟨iff_of_false hrefused nofun, fun h => absurd h hrefused⟩
  | none =>
    have hlands : answered.Accepted := by
      show (asked.tracker.supply _ messages).Accepted
      rw [supply_eq_land hawaited hingest hbar hfound]
      exact ⟨_, rfl⟩
    have hsame : answered.tracker = _ := supply_eq_jump he hc hbar hfound
    refine ⟨iff_of_true hlands (haccepts.2 hbar), fun _ => ⟨hsame, fun room' => ?_⟩⟩
    rw [hsame]
    rfl

/-- The messages come out of order, one of them twice and one of another room; one is the user's
own, and a receipt waits for one.  The storage fails at its second write. -/
theorem asking_then_landing_is_loading_first_out_of_order :
    let room : RoomId := ⟨"!r"⟩
    let said (id sender : String) (q : Nat) : Message := ⟨⟨id⟩, room, ⟨sender⟩, q, .plain, false⟩
    let t := (fresh .counting { debounce := 5 } ⟨"@me"⟩ (⟨⟨.empty, some 1, 0⟩, .empty, .empty⟩ :
      MarkerBook (Rationed Shelf))).after
      [.command (.receive room [said "$9" "@bot" 9] true), .command (.jump room ⟨"$8"⟩ true),
        .command (.receipt room ⟨"@me"⟩ ⟨"$3"⟩ .shared .room)]
    let messages : List Message :=
      [said "$4" "@bot" 4, said "$2" "@me" 2, ⟨⟨"$3"⟩, ⟨"!s"⟩, ⟨"@bot"⟩, 5, .plain, false⟩,
        said "$3" "@bot" 3, said "$3" "@bot" 7]
    let asked := t.handle (.jump room ⟨"$4"⟩ false)
    let direct := (t.handle (.backfill room messages none)).tracker.handle
      (.jump room ⟨"$4"⟩ false)
    (∃ request, asked.requests = [request] ∧
        (asked.tracker.handle (.supply request messages)).tracker =
          { direct.tracker with ambient := asked.tracker.ambient }) ∧
      direct.tracker.book.mark? (.ofRoom room) .shared = some ⟨⟨"$3"⟩, 3, 1700000000000⟩ ∧
      direct.tracker.book.mark? (.ofRoom room) .personal = some ⟨⟨"$4"⟩, 4, 1700000000000⟩ ∧
      direct.tracker.book.unflushed.keys =
        [⟨.ofRoom room, .shared⟩, ⟨.ofRoom room, .personal⟩] := by
  intro room said t messages asked direct
  have hmissing : t.chronicle.get? ⟨"$4"⟩ = none := by decide +kernel
  have hdirect : direct.Accepted := Answer.accepted_iff_isOk.2 (by decide +kernel)
  have htarget : ∃ m ∈ messages, m.id = ⟨"$4"⟩ ∧ m.room = room :=
    ⟨said "$4" "@bot" 4, List.mem_cons_self, rfl, rfl⟩
  obtain ⟨-, -, request, hrequests, haccepts, hsame⟩ :=
    asking_then_landing_is_loading_first room false hmissing htarget
  have hanswered := (hsame (haccepts.2 hdirect)).1
  refine ⟨⟨request, hrequests, ?_⟩, ?_, ?_, ?_⟩
  · rw [hanswered]
  · decide +kernel
  · decide +kernel
  · decide +kernel

end Tracker

end ReadTracking
