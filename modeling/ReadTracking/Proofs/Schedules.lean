import Mathlib.Data.List.Induction
import ReadTracking.Backing.Shelf
import ReadTracking.Proofs.Deliveries
import ReadTracking.Proofs.Expecting

/-!
# The order of deliveries does not matter

While nobody looks, what is wished at a point of a schedule is decided by what was delivered until
then: a new message of the local user wishes for itself, and so does a message for which a receipt
came, as soon as both are there.  So schedules that deliver the same end with markers that stand at
the same sequences, and with the same counts.
-/

set_option autoImplicit false

namespace ReadTracking

/-! ## Single deliveries -/

theorem Turn.hold_eq {σ : Type} (r : Turn σ) (room : RoomId) {event : EventId} (v : Visibility)
    (reach : Reach)
    (h : r.tracker.held.get? event = none → r.tracker.held.size < Tracker.maxHeld) :
    ∃ x : Held, r.hold room event v reach =
        { r with tracker := { r.tracker with held := r.tracker.held.insert event x } } ∧
      ∀ w, w ∈ x.receipts ↔
        w = (v, reach) ∨ ∃ y, r.tracker.held.get? event = some y ∧ w ∈ y.receipts := by
  rcases r.hold_cases room event v reach with ⟨hn, hfull, -⟩ | ⟨-, heq⟩
  · exact absurd hfull (Nat.not_le_of_lt (h hn))
  · refine ⟨_, heq, fun w => ?_⟩
    rw [Held.mem_add]
    cases r.tracker.held.get? event with
    | none => simp
    | some y => simp

namespace Tracker

variable {σ : Type} [Backing σ]

omit [Backing σ] in
theorem reaches_arrival {u : Tracker σ} (hs : u.chronicle.Sound)
    (hscope : ∀ {id h}, u.held.get? id = some h → ∀ w ∈ h.receipts, w.2 = .scope)
    {c : Command} {b : Batch} (hb : u.batch? c = some b) {slot : Slot} {q : Nat} :
    (∃ w ∈ (u.placed c).flatMap (u.loaded c).wishes, w.slot = slot ∧ q ≤ w.update.sequence) ↔
      ∃ id e, u.chronicle.get? id = none ∧ (u.chronicle.take b).1.get? id = some e ∧
        e.scope = slot.scope ∧ q ≤ e.position.sequence ∧
        (e.message.sender = u.reader ∧ u.policy.ownMessagesRead = true ∧
            slot.visibility = .shared ∨
          ∃ h, u.held.get? id = some h ∧ (slot.visibility, .scope) ∈ h.receipts) := by
  rw [loaded_eq hb, placed_eq hb]
  constructor
  · rintro ⟨w, hw, rfl, hq⟩
    obtain ⟨p, hp, hw⟩ := List.mem_flatMap.1 hw
    obtain ⟨e, he, hscope', hpos⟩ := Chronicle.has_take p hp
    obtain ⟨hnew, -⟩ := hs.mem_placed_iff.1 (List.mem_map_of_mem hp)
    have hsame : p.update.sequence = e.position.sequence := congrArg Position.sequence hpos.symm
    refine ⟨p.id, e, hnew, he, ?_⟩
    rcases List.mem_append.1 hw with hw | hw
    · obtain ⟨e', he', hsender, hown, rfl⟩ := mem_ownWishes.1 hw
      cases he.symm.trans he'
      exact ⟨hscope', hsame ▸ hq, .inl ⟨hsender, hown, rfl⟩⟩
    · obtain ⟨h, hh, x, hx, hw⟩ := mem_heldWishes.1 hw
      obtain ⟨v, reach⟩ := x
      cases hscope hh _ hx
      cases List.mem_singleton.1 hw
      exact ⟨hscope', hsame ▸ hq, .inr ⟨h, hh, hx⟩⟩
  · rintro ⟨id, e, hnew, he, hslot, hq, h⟩
    obtain ⟨p, hp, rfl⟩ := List.mem_map.1 (hs.mem_placed_iff.2 ⟨hnew, e, he⟩)
    obtain ⟨e', he', hscope', hpos⟩ := Chronicle.has_take p hp
    cases he.symm.trans he'
    obtain ⟨s, v⟩ := slot
    have hupdate : (⟨v, p.update⟩ : Wish).slot = ⟨s, v⟩ :=
      congrArg (Slot.mk · v) (hscope'.symm.trans hslot)
    have hsame : e.position.sequence = p.update.sequence := congrArg Position.sequence hpos
    refine ⟨⟨v, p.update⟩, List.mem_flatMap.2 ⟨p, hp, List.mem_append.2 ?_⟩, hupdate,
      hsame ▸ hq⟩
    rcases h with ⟨hsender, hown, hv⟩ | ⟨h, hh, hx⟩
    · refine .inl (mem_ownWishes.2 ⟨e, he, hsender, hown, ?_⟩)
      exact congrArg (Wish.mk · p.update) hv
    · exact .inr (mem_heldWishes.2 ⟨h, hh, _, hx, List.mem_singleton.2 rfl⟩)

variable {u : Tracker σ} {user : UserId} {event : EventId} {v : Visibility}

theorem receipt_of_indexed (hu : user = u.reader) (room : RoomId) {e : Indexed}
    (he : u.chronicle.get? event = some e) :
    ∃ sends reported, (u.receipt room user event v .scope).tracker =
      { u with
        book := (u.book.advance ⟨e.scope, event, e.position.sequence⟩ v u.ambient.wallClock).1
        sends
        reported } := by
  obtain ⟨reported, notices, hr⟩ :=
    (({ tracker := u } : Turn σ).readElsewhere ⟨e.scope, event, e.position.sequence⟩ v).report_eq
      e.scope.room
  simp only [receipt, if_pos hu, he, Turn.applyReceipt]
  rw [hr, Turn.readElsewhere_eq]
  exact ⟨_, _, rfl⟩

theorem receipt_of_unindexed (hu : user = u.reader) (room : RoomId)
    (hn : u.chronicle.get? event = none)
    (h : u.held.get? event = none → u.held.size < maxHeld) :
    ∃ sends x, (u.receipt room user event v .scope).tracker =
        { u with held := u.held.insert event x, sends } ∧
      ∀ w, w ∈ x.receipts ↔ w = (v, .scope) ∨ ∃ y, u.held.get? event = some y ∧ w ∈ y.receipts := by
  obtain ⟨x, hx, hw⟩ := ({ tracker := u } : Turn σ).hold_eq room v .scope h
  simp only [receipt, if_pos hu, hn, hx]
  exact ⟨_, x, rfl, hw⟩

/-! ## Schedules -/

/-- All messages and receipts are delivered, and receipts never wait for too many messages. -/
structure Schedule (t : Tracker σ) (messages : List Message) (receipts : List Receipt)
    (ms : List Moment) : Prop where
  delivers : ∀ m ∈ ms, m.Delivers t.reader messages receipts
  messages : ∀ m ∈ messages, m.Came ms
  receipts : ∀ r ∈ receipts, r.moment t.reader ∈ ms
  room : ∀ ms', ms' <+: ms → ((t.after ms').chronicle.waitingFor ms').length ≤ maxHeld

/-- In a short schedule there is always room for the receipts that wait. -/
theorem room_of_short (t : Tracker σ) {ms : List Moment} (h : ms.length ≤ maxHeld) :
    ∀ ms', ms' <+: ms → ((t.after ms').chronicle.waitingFor ms').length ≤ maxHeld :=
  fun ms' hms' => Nat.le_trans (Chronicle.length_waitingFor_le _ ms')
    (Nat.le_trans hms'.length_le h)

def Reads (t : Tracker σ) (ms : List Moment) (id : EventId) (e : Indexed) (v : Visibility) :
    Prop :=
  (t.chronicle.get? id = none ∧ e.message.sender = t.reader ∧
    t.policy.ownMessagesRead = true ∧ v = .shared) ∨
    ∃ room, Receipt.moment t.reader ⟨room, id, v⟩ ∈ ms

omit [Backing σ] in
theorem reads_append (t : Tracker σ) {ms : List Moment} {m : Moment} (h : m.receipted? = none)
    {id : EventId} {e : Indexed} {v : Visibility} :
    t.Reads (ms ++ [m]) id e v ↔ t.Reads ms id e v := by
  simp only [Reads, Receipt.moment_mem_append _ h]

omit [Backing σ] in
theorem reads_append_receipt (t : Tracker σ) {ms : List Moment} (r : Receipt) {id : EventId}
    {e : Indexed} {v : Visibility} : t.Reads (ms ++ [r.moment t.reader]) id e v ↔
      t.Reads ms id e v ∨ r.event = id ∧ r.visibility = v := by
  have hroom : (∃ room, (⟨room, id, v⟩ : Receipt) = r) ↔ r.event = id ∧ r.visibility = v := by
    constructor
    · rintro ⟨room, rfl⟩
      exact ⟨rfl, rfl⟩
    · rintro ⟨rfl, rfl⟩
      exact ⟨r.room, rfl⟩
  simp only [Reads, Receipt.mem_append_moment, exists_or, hroom, or_assoc]

structure Stage (t : Tracker σ) (messages : List Message) (ms : List Moment) (u : Tracker σ) :
    Prop where
  policy : u.policy = t.policy
  reader : u.reader = t.reader
  focus : u.focus = none
  takes : t.chronicle.Takes messages ms u.chronicle
  pending : Pending t.reader ms u.chronicle u.held
  marks : ∀ slot q, Reaches u.book.marks slot q ↔ Reaches t.book.marks slot q ∨
    ∃ id e, u.chronicle.get? id = some e ∧ e.scope = slot.scope ∧ q ≤ e.position.sequence ∧
      t.Reads ms id e slot.visibility

namespace Stage

variable {t u : Tracker σ} {messages : List Message} {ms : List Moment}

omit [Backing σ] in
theorem start (hs : t.chronicle.Sound) (hf : t.focus = none) (hh : t.held.size = 0) :
    t.Stage messages [] t where
  policy := rfl
  reader := rfl
  focus := hf
  takes := .start hs
  pending := .start hh
  marks slot q := by
    refine ⟨.inl, ?_⟩
    rintro (h | ⟨id, e, he, -, -, h⟩)
    · exact h
    · rcases h with ⟨hn, -⟩ | ⟨room, hr⟩
      · rw [hn] at he
        cases he
      · cases hr

omit [Backing σ] in
theorem wait (h : t.Stage messages ms u) (ambient : Ambient) :
    t.Stage messages (ms ++ [.surroundings ambient]) { u with ambient } where
  policy := h.policy
  reader := h.reader
  focus := h.focus
  takes := h.takes.quiet rfl
  pending := h.pending.quiet rfl
  marks slot q := by
    simp only [t.reads_append (m := .surroundings ambient) rfl]
    exact h.marks slot q

theorem batch (h : t.Stage messages ms u)
    (hself : ∀ m ∈ messages, m.content.placesItself = true) {c : Command} {b : Batch}
    (hc : c.batch? = some b) (hsub : b.messages ⊆ messages) (hl : b.limited = false)
    (hf : b.filled = none) : t.Stage messages (ms ++ [.command c]) (u.handle c).tracker := by
  have hb : u.batch? c = some b := batch?_of_batch? hc
  have hu := settled_handle hc h.focus
  have hquiet : (Moment.command c).receipted? = none := Moment.receipted?_of_batch? hc
  have hsound := h.takes.sound
  have hscope : ∀ {id x}, u.held.get? id = some x → ∀ w ∈ x.receipts, w.2 = .scope :=
    fun hx w hw => ((h.pending.came hx).2 w hw).1
  refine ⟨hu.policy.trans h.policy, hu.reader.trans h.reader, hu.focus, ?_, ?_, fun slot q => ?_⟩
  all_goals rw [hu.chronicle, loaded_eq hb]
  · exact h.takes.batch hself hc hsub hl hf
  · refine h.pending.batch hsound hc ?_
    rw [← placed_eq hb]
    exact hu.held
  · rw [hu.marks, Wish.reaches_grantAll, h.marks, reaches_arrival hsound hscope hb, or_assoc]
    simp only [t.reads_append hquiet]
    refine or_congr_right ⟨?_, ?_⟩
    · rintro (⟨id, e, he, hs, hq, hr⟩ | ⟨id, e, hn, he, hs, hq, hr⟩)
      · exact ⟨id, e, Chronicle.get?_take_of_some he, hs, hq, hr⟩
      · refine ⟨id, e, he, hs, hq, ?_⟩
        rcases hr with ⟨hsender, hown, hv⟩ | ⟨x, hx, hw⟩
        · exact .inl ⟨h.takes.unindexed hn, h.reader ▸ hsender, h.policy ▸ hown, hv⟩
        · exact .inr ((h.pending.came hx).2 _ hw).2
    · rintro ⟨id, e, he, hs, hq, hr⟩
      cases hid : u.chronicle.get? id with
      | some e' =>
        cases (Chronicle.get?_take_of_some hid).symm.trans he
        exact .inl ⟨id, e, hid, hs, hq, hr⟩
      | none =>
        refine .inr ⟨id, e, hid, he, hs, hq, ?_⟩
        rcases hr with ⟨-, hsender, hown, hv⟩ | ⟨room, hr⟩
        · exact .inl ⟨hsender.trans h.reader.symm, h.policy ▸ hown, hv⟩
        · exact .inr (h.pending.waits ⟨room, id, slot.visibility⟩ hr hid)

theorem receipt (h : t.Stage messages ms u) (r : Receipt)
    (hroom : (u.chronicle.waitingFor (ms ++ [r.moment t.reader])).length ≤ maxHeld) :
    t.Stage messages (ms ++ [r.moment t.reader]) (u.meet (r.moment t.reader)).tracker := by
  show t.Stage messages _ (u.receipt r.room t.reader r.event r.visibility .scope).tracker
  cases he : u.chronicle.get? r.event with
  | some e =>
    obtain ⟨sends, reported, hu⟩ := receipt_of_indexed h.reader.symm r.room he
    rw [hu]
    refine ⟨h.policy, h.reader, h.focus, h.takes.quiet rfl, h.pending.known he, fun slot q => ?_⟩
    rw [MarkerBook.marks_advance_eq, Wish.reaches_grant, h.marks, or_assoc]
    simp only [t.reads_append_receipt]
    refine or_congr_right ⟨?_, ?_⟩
    · rintro (⟨id, e', he', hs, hq, hr⟩ | ⟨rfl, hq⟩)
      · exact ⟨id, e', he', hs, hq, .inl hr⟩
      · exact ⟨r.event, e, he, rfl, hq, .inr ⟨rfl, rfl⟩⟩
    · rintro ⟨id, e', he', hs, hq, hr | ⟨rfl, hv⟩⟩
      · exact .inl ⟨id, e', he', hs, hq, hr⟩
      · cases he.symm.trans he'
        exact .inr ⟨by rw [Wish.slot, hs, hv], hq⟩
  | none =>
    have hspace : u.held.get? r.event = none → u.held.size < maxHeld := fun hh =>
      Nat.lt_of_lt_of_le (h.pending.size_lt he hh) hroom
    obtain ⟨sends, x, hu, hx⟩ := receipt_of_unindexed h.reader.symm r.room he hspace
    rw [hu]
    refine ⟨h.policy, h.reader, h.focus, h.takes.quiet rfl, h.pending.unknown he hx,
      fun slot q => ?_⟩
    rw [h.marks]
    simp only [t.reads_append_receipt]
    refine or_congr_right ⟨?_, ?_⟩
    · rintro ⟨id, e', he', hs, hq, hr⟩
      exact ⟨id, e', he', hs, hq, .inl hr⟩
    · rintro ⟨id, e', he', hs, hq, hr | ⟨rfl, -⟩⟩
      · exact ⟨id, e', he', hs, hq, hr⟩
      · rw [he] at he'
        cases he'

/-- Every beginning of a schedule leads to its stage. -/
theorem reached {receipts : List Receipt} (hs : t.chronicle.Sound) (hf : t.focus = none)
    (hh : t.held.size = 0) (hself : ∀ m ∈ messages, m.content.placesItself = true)
    (h : t.Schedule messages receipts ms) : t.Stage messages ms (t.after ms) := by
  obtain ⟨hdelivers, -, -, hroom⟩ := h
  induction ms using List.reverseRecOn with
  | nil => exact .start hs hf hh
  | append_singleton ms m ih =>
    have hstage := ih (fun m' hm' => hdelivers m' (List.mem_append_left _ hm'))
      fun ms' hms' => hroom ms' (hms'.trans (List.prefix_append ms [m]))
    rw [after_append]
    show t.Stage messages (ms ++ [m]) ((t.after ms).meet m).tracker
    cases hdelivers m (List.mem_append_right _ List.mem_cons_self) with
    | wait ambient => exact hstage.wait ambient
    | receive room hsub => exact hstage.batch hself rfl hsub rfl rfl
    | backfill room hsub => exact hstage.batch hself rfl hsub rfl rfl
    | @receipt r _ =>
      refine hstage.receipt r ?_
      have hlast := hroom (ms ++ [r.moment t.reader]) (List.prefix_refl _)
      rw [after_append] at hlast
      obtain ⟨ws, place, hc⟩ := (t.after ms).conducts
        (.receipt r.room t.reader r.event r.visibility .scope) nofun
      -- A receipt indexes nothing.
      have hsame := hc.grants.chronicle
      rw [loaded_eq_self rfl] at hsame
      exact hsame ▸ hlast

omit [Backing σ] in
theorem reaches {u' : Tracker σ} {ms' : List Moment} (h : t.Stage messages ms u)
    (h' : t.Stage messages ms' u') (hholds : u'.chronicle.Holds u.chronicle)
    (hreceipts : ∀ r : Receipt, r.moment t.reader ∈ ms → r.moment t.reader ∈ ms') {slot : Slot}
    {q : Nat} (hr : Reaches u.book.marks slot q) : Reaches u'.book.marks slot q := by
  refine (h'.marks slot q).2 (((h.marks slot q).1 hr).imp_right ?_)
  rintro ⟨id, e, he, hs, hq, hreads⟩
  obtain ⟨e', he', hlike⟩ := hholds id e he
  refine ⟨id, e', he', hlike.scope.trans hs, hlike.sequence ▸ hq, ?_⟩
  refine hreads.imp ?_ fun ⟨room, hroom⟩ => ⟨room, hreceipts _ hroom⟩
  rw [hlike.message]
  exact fun h => h

end Stage

/-- After any course, while nobody looks and no receipt waits, the order of deliveries does not
matter: where messages with different names that tell their scopes are all delivered, and receipts
as well, markers end at the same sequences, and every main timeline and every thread has the same
counts.  All that was delivered has its effect: the messages are indexed, and what a receipt is for
is read. -/
theorem order_of_deliveries_immaterial {ambient : Ambient} {policy : Policy} {reader : UserId}
    {s : σ} {t : Tracker σ} (ht : (openOver ambient policy reader s).1 = .ok t)
    (past : List Moment) (hf : (t.after past).focus = none) (hh : (t.after past).held.size = 0)
    {messages : List Message} {receipts : List Receipt}
    (hn : (messages.map (·.id)).Nodup)
    (hself : ∀ m ∈ messages, m.content.placesItself = true) {ms ms' : List Moment}
    (h : (t.after past).Schedule messages receipts ms)
    (h' : (t.after past).Schedule messages receipts ms') :
    let u := (t.after past).after ms
    let u' := (t.after past).after ms'
    (∀ scope v, (u.book.mark? scope v).map (·.sequence) =
      (u'.book.mark? scope v).map (·.sequence)) ∧
    (∀ room, countScope u.chronicle u.book (.ofRoom room) =
        countScope u'.chronicle u'.book (.ofRoom room) ∧
      ∀ root, u.threadState room root = u'.threadState room root) ∧
    (∀ m ∈ messages, ∃ e, u.chronicle.get? m.id = some e) ∧
    ∀ r ∈ receipts, ∀ e, u.chronicle.get? r.event = some e →
      Reaches u.book.marks ⟨e.scope, r.visibility⟩ e.position.sequence := by
  intro u u'
  have hsound : (t.after past).chronicle.Sound := by
    obtain ⟨book, rfl, -⟩ := eq_fresh_of_openOver ht
    exact sound_after (Chronicle.sound_empty _) past
  have hu : (t.after past).Stage messages ms u := .reached hsound hf hh hself h
  have hu' : (t.after past).Stage messages ms' u' := .reached hsound hf hh hself h'
  have hholds := hu.takes.holds hu'.takes hn h'.messages
  have hholds' := hu'.takes.holds hu.takes hn h.messages
  have hreaches : ∀ slot q, Reaches u.book.marks slot q ↔ Reaches u'.book.marks slot q :=
    fun slot q =>
      ⟨hu.reaches hu' hholds fun r hr => h'.receipts r (h.delivers _ hr).mem_receipts,
        hu'.reaches hu hholds' fun r hr => h.receipts r (h'.delivers _ hr).mem_receipts⟩
  have hread : ∀ scope, u.book.readTo scope = u'.book.readTo scope :=
    MarkerBook.readTo_eq_of_reaches hreaches
  have hgaps : ∀ scope, (u.chronicle.strand scope).gaps = (u'.chronicle.strand scope).gaps :=
    fun scope => (hu.takes.gaps scope).trans (hu'.takes.gaps scope).symm
  refine ⟨fun scope v => sequence_eq_of_reaches (hreaches ⟨scope, v⟩),
    fun room => ⟨?_, fun root => ?_⟩, fun m hm => hu.takes.came m (h.messages m hm),
    fun r hr e he => ?_⟩
  · exact Chronicle.countScope_timeless hu'.takes.sound hu.takes.sound hholds' hholds (hgaps _)
      (hread _)
  · exact Chronicle.threadState_timeless hu'.takes.sound hu.takes.sound hholds' hholds (hgaps _)
      (hread _)
  · exact (hu.marks _ _).2 (.inr ⟨r.event, e, he, rfl, Nat.le_refl _,
      .inr ⟨r.room, h.receipts r hr⟩⟩)

/-- A thread in which the local user writes, and a receipt for a message of the main timeline: the
same comes in the order in which it was sent, and backwards with a repetition. -/
theorem deliveries_agree_backwards :
    let room : RoomId := ⟨"!r"⟩
    let said (id sender : String) (q : Nat) (content : Content) : Message :=
      ⟨⟨id⟩, room, ⟨sender⟩, q, content, false⟩
    let root := said "$1" "@bot" 1 .plain
    let own := said "$2" "@me" 2 (.threadReply ⟨"$1"⟩)
    let answer := said "$3" "@bot" 3 (.threadReply ⟨"$1"⟩)
    let news := said "$4" "@bot" 4 .plain
    let read : Moment := .command (.receipt room ⟨"@me"⟩ ⟨"$4"⟩ .shared .scope)
    let t : Tracker Shelf := (fresh .counting {} ⟨"@me"⟩ ⟨.empty, .empty, .empty⟩).after
      [.command (.viewRoom room), .command .leave]
    let u := t.after [.command (.receive room [root, own] false),
      .command (.receive room [answer, news] false), read]
    let u' := t.after [read, .command (.backfill room [news, answer] none),
      .command (.receive room [own] false), .surroundings .counting,
      .command (.receive room [root, own] false)]
    (∀ scope v, (u.book.mark? scope v).map (·.sequence) =
      (u'.book.mark? scope v).map (·.sequence)) ∧
      countScope u.chronicle u.book (.ofRoom room) =
        countScope u'.chronicle u'.book (.ofRoom room) ∧
      u.threadState room ⟨"$1"⟩ = u'.threadState room ⟨"$1"⟩ ∧
      ((u'.roomState room).mainUnread, (u'.threadState room ⟨"$1"⟩).map (·.unread)) =
        (0, some 1) := by
  intro room said root own answer news read t u u'
  have hreader : t.reader = ⟨"@me"⟩ := by decide +kernel
  have h : t.Schedule [root, own, answer, news] [⟨room, ⟨"$4"⟩, .shared⟩]
      [.command (.receive room [root, own] false),
        .command (.receive room [answer, news] false), read] := by
    refine ⟨?_, ?_, ?_, t.room_of_short (by decide)⟩
    · simp only [List.forall_mem_cons, List.not_mem_nil, false_imp_iff, implies_true, and_true]
      rw [hreader]
      exact ⟨.receive room (by simp), .receive room (by simp), .receipt List.mem_cons_self⟩
    · simp [Message.Came, Moment.batch?, Command.batch?, read, root, own, answer, news, said]
    · simp [Receipt.moment, hreader, read]
  have h' : t.Schedule [root, own, answer, news] [⟨room, ⟨"$4"⟩, .shared⟩]
      [read, .command (.backfill room [news, answer] none),
        .command (.receive room [own] false), .surroundings .counting,
        .command (.receive room [root, own] false)] := by
    refine ⟨?_, ?_, ?_, t.room_of_short (by decide)⟩
    · simp only [List.forall_mem_cons, List.not_mem_nil, false_imp_iff, implies_true, and_true]
      rw [hreader]
      exact ⟨.receipt List.mem_cons_self, .backfill room (by simp), .receive room (by simp),
        .wait _, .receive room (by simp)⟩
    · simp [Message.Came, Moment.batch?, Command.batch?, read, root, own, answer, news, said]
    · simp [Receipt.moment, hreader, read]
  have ht : (openOver .counting {} ⟨"@me"⟩ Shelf.empty).1 =
      .ok (fresh .counting {} ⟨"@me"⟩ ⟨.empty, .empty, .empty⟩) := rfl
  have hf : t.focus = none := by decide +kernel
  have hh : t.held.size = 0 := by decide +kernel
  have hn : ([root, own, answer, news].map (·.id)).Nodup := by decide +kernel
  have hself : ∀ m ∈ [root, own, answer, news], m.content.placesItself = true := by
    decide +kernel
  obtain ⟨hmarks, hcounts, -⟩ := order_of_deliveries_immaterial ht
    [.command (.viewRoom room), .command .leave] hf hh hn hself h h'
  exact ⟨hmarks, (hcounts room).1, (hcounts room).2 ⟨"$1"⟩, by decide +kernel⟩

end Tracker

end ReadTracking
