import ReadTracking.Proofs.Audits
import ReadTracking.Proofs.Fetching
import ReadTracking.Proofs.Filling
import ReadTracking.Proofs.Following
import ReadTracking.Proofs.Forgetting
import ReadTracking.Proofs.HalfSent
import ReadTracking.Proofs.Stored

/-!
# What a session knows of its tracker

A session remembers which events it has handed to the tracker and which gaps limited batches have
left.  It never asks the tracker, so this stays right only as long as both do the same: whatever is
indexed was handed over, and every gap was noted.  Each step of a move keeps that, over memory.
What can go apart is one thing.  An event that was handed over need not be indexed: it is astray.
-/

set_option autoImplicit false

namespace ReadTracking

open Backing

theorem MarkerBook.Stored.chronological_forget {b : MarkerBook Shelf} {room : RoomId}
    {history : Table Scope (List Nat)} (h : Chronological history b) :
    Chronological (history.filter fun scope _ => scope.room != room) (b.forget room).1 := by
  intro s l hl
  rw [Table.get?_filter, Option.filter_eq_some_iff] at hl
  obtain ⟨hrising, hcovered⟩ := h s l hl.1
  refine ⟨hrising, fun q hq => ?_⟩
  rw [covers_forget b (bne_iff_ne.1 hl.2)]
  exact hcovered q hq

theorem Command.messages_of_not_brings {c : Command} (h : c.brings = false) : c.messages = [] := by
  cases c with
  | supply | receive | backfill => cases h
  | markRoomRead | viewRoom | viewThread | closeThread | leave | jump | receipt | sendFailed
  | forget | tick => rfl

theorem Command.ne_forget {c : Command} (h : c.isForget = false) : ∀ room, c ≠ .forget room := by
  rintro room rfl
  cases h

namespace Session

structure Owes (s : Session Shelf) (owed : List (RoomId × Nat)) : Prop where
  server : s.server.Sound
  sound : s.tracker.chronicle.Sound
  delivered : ∀ {id e}, s.tracker.chronicle.get? id = some e → s.delivered.contains id = true
  numbered : ∀ {id e}, s.tracker.chronicle.get? id = some e →
    ∃ n < s.server.nextSequence, id = Server.eventNumbered n
  gaps : ∀ {scope g}, (s.tracker.chronicle.strand scope).gaps.contains g = true →
    g ∈ (s.gaps.get? scope.room).getD [] ∨ (scope.room, g) ∈ owed
  stored : s.tracker.book.Stored
  chronological : Chronological s.history s.tracker.book
  checks : s.checks = Check.standard

abbrev Upright (s : Session Shelf) : Prop := s.Owes []

def Astray (s : Session Shelf) (id : EventId) : Prop :=
  s.delivered.contains id = true ∧ s.tracker.chronicle.get? id = none

structure Keeps (s s' : Session Shelf) : Prop where
  upright : s'.Upright
  delivered : ∀ {id}, s.delivered.contains id = true → s'.delivered.contains id = true
  astray : ∀ {id}, s'.Astray id → s.Astray id

structure Rests (s s' : Session Shelf) : Prop where
  upright : s'.Upright
  chronicle : s'.tracker.chronicle = s.tracker.chronicle
  delivered : s'.delivered = s.delivered
  timelines : s'.server.timelines = s.server.timelines

variable {s s' s'' : Session Shelf} {owed : List (RoomId × Nat)}

theorem Keeps.trans (h : s.Keeps s') (h' : s'.Keeps s'') : s.Keeps s'' :=
  ⟨h'.upright, fun hd => h'.delivered (h.delivered hd), fun ha => h.astray (h'.astray ha)⟩

theorem Rests.trans (h : s.Rests s') (h' : s'.Rests s'') : s.Rests s'' :=
  ⟨h'.upright, h'.chronicle.trans h.chronicle, h'.delivered.trans h.delivered,
    h'.timelines.trans h.timelines⟩

theorem Rests.keeps (h : s.Rests s') : s.Keeps s' := by
  refine ⟨h.upright, fun hd => h.delivered ▸ hd, fun ha => ?_⟩
  unfold Astray at ha ⊢
  rwa [h.chronicle, h.delivered] at ha

theorem Owes.aside (h : s.Owes owed) {rooms : Table String RoomId} {current : Option RoomId}
    {holding dated : Bool} {waiting : Option Fetch} {failedSends unsaved moves : Nat}
    {ambient : Ambient} : ({ s with
      rooms, current, holding, waiting, failedSends, unsaved, moves, dated
      tracker := { s.tracker with ambient } } : Session Shelf).Owes owed :=
  ⟨h.server, h.sound, h.delivered, h.numbered, h.gaps, h.stored, h.chronological, h.checks⟩

theorem Owes.serve (h : s.Owes owed) {server : Server} (hsound : server.Sound)
    (hnext : s.server.nextSequence ≤ server.nextSequence) :
    ({ s with server } : Session Shelf).Owes owed := by
  refine ⟨hsound, h.sound, h.delivered, fun he => ?_, h.gaps, h.stored, h.chronological, h.checks⟩
  obtain ⟨n, hn, hid⟩ := h.numbered he
  exact ⟨n, Nat.lt_of_lt_of_le hn hnext, hid⟩

theorem Upright.rests_aside (h : s.Upright) {rooms : Table String RoomId}
    {current : Option RoomId} {holding dated : Bool} {waiting : Option Fetch}
    {failedSends unsaved moves : Nat} {ambient : Ambient} : s.Rests { s with
      rooms, current, holding, waiting, failedSends, unsaved, moves, dated
      tracker := { s.tracker with ambient } } :=
  ⟨h.aside, rfl, rfl, rfl⟩

theorem Upright.rests (h : s.Upright) : s.Rests s := ⟨h, rfl, rfl, rfl⟩

/-! ## Commands -/

def handled (s : Session Shelf) (c : Command) (gaps : Table RoomId (List Nat)) : Session Shelf :=
  { s with
    tracker := (s.tracker.handle c).tracker
    delivered := s.delivered.insertAll (c.messages.map fun m : Message => (m.id, ()))
    gaps
    dated := s.dated || (s.tracker.handle c).dated }

theorem contains_delivered_handled {c : Command} {gaps : Table RoomId (List Nat)} {id : EventId} :
    (s.handled c gaps).delivered.contains id = true ↔
      s.delivered.contains id = true ∨ ∃ m ∈ c.messages, m.id = id := by
  refine (Table.contains_insertAll _).trans (or_congr_right ?_)
  simp only [List.mem_map]
  constructor
  · rintro ⟨_, ⟨m, hm, rfl⟩, hid⟩
    exact ⟨m, hm, hid⟩
  · rintro ⟨m, hm, hid⟩
    exact ⟨_, ⟨m, hm, rfl⟩, hid⟩

/-- A command keeps a session right whose messages have numbers that the server has used, and whose
gaps are noted. -/
theorem Owes.handle (h : s.Owes owed) {c : Command} (hc : c.isForget = false)
    (hnumbered : ∀ m ∈ c.messages, ∃ n < s.server.nextSequence, m.id = Server.eventNumbered n)
    {gaps : Table RoomId (List Nat)} {owed' : List (RoomId × Nat)}
    (hgaps : ∀ {scope g}, ((s.tracker.loaded c).chronicle.strand scope).gaps.contains g = true →
      g ∈ (gaps.get? scope.room).getD [] ∨ (scope.room, g) ∈ owed') :
    (s.handled c gaps).Owes owed' := by
  have hchronicle : (s.handled c gaps).tracker.chronicle = (s.tracker.loaded c).chronicle :=
    s.tracker.chronicle_handle (Command.ne_forget hc)
  have hsound := Tracker.sound_loaded h.sound c
  constructor
  case server => exact h.server
  case sound => exact hchronicle ▸ hsound
  case delivered =>
    intro id e he
    rw [hchronicle] at he
    rw [contains_delivered_handled]
    rcases Tracker.of_get?_loaded he with hold | ⟨-, hm⟩
    · exact .inl (h.delivered hold)
    · exact .inr ⟨e.message, hm, hsound.named he⟩
  case numbered =>
    intro id e he
    rw [hchronicle] at he
    rcases Tracker.of_get?_loaded he with hold | ⟨-, hm⟩
    · exact h.numbered hold
    · rw [← hsound.named he]
      exact hnumbered e.message hm
  case gaps =>
    intro scope g hg
    rw [hchronicle] at hg
    exact hgaps hg
  case stored => exact Tracker.stored_handle h.stored h.sound c
  case chronological =>
    exact h.chronological.mono fun _ _ hq => Tracker.covers_handle (Command.ne_forget hc) hq
  case checks => exact h.checks

theorem Upright.rests_handled (h : s.Upright) {c : Command} (hc : c.isForget = false)
    (hm : c.brings = false) : s.Rests (s.handled c s.gaps) := by
  have hloaded := Tracker.loaded_eq_self (s.tracker.batch?_of_not_brings hm)
  have hnone := Command.messages_of_not_brings hm
  refine ⟨h.handle hc (fun m hm => ?_) fun hg => ?_, ?_, ?_, rfl⟩
  · rw [hnone] at hm
    cases hm
  · rw [hloaded] at hg
    exact h.gaps hg
  · exact (s.tracker.chronicle_handle (Command.ne_forget hc)).trans
      (congrArg Tracker.chronicle hloaded)
  · simp only [handled, hnone]
    rfl

theorem after_handle {c : Command} (hm : c.brings = false) :
    s.after (s.tracker.handle c) = (s.handled c s.gaps, (s.tracker.handle c).reply) := by
  simp only [handled, Command.messages_of_not_brings hm]
  rfl

/-- The messages of a batch do not go astray if they belong to its room. -/
theorem astray_of_handled {c : Command} {gaps : Table RoomId (List Nat)}
    (hc : c.isForget = false) {b : Batch} (hb : s.tracker.batch? c = some b)
    (hroom : ∀ m ∈ b.messages, m.room = b.room) {id : EventId}
    (h : (s.handled c gaps).Astray id) : s.Astray id := by
  obtain ⟨hd, hn⟩ := h
  have hchronicle : (s.handled c gaps).tracker.chronicle = (s.tracker.chronicle.take b).1 :=
    (s.tracker.chronicle_handle (Command.ne_forget hc)).trans (Tracker.chronicle_loaded hb)
  rw [hchronicle] at hn
  rcases contains_delivered_handled.1 hd with hd | ⟨m, hm, rfl⟩
  · refine ⟨hd, Option.eq_none_iff_forall_ne_some.2 fun e he => ?_⟩
    cases (Chronicle.get?_take_of_some he).symm.trans hn
  · rw [← Tracker.messages_batch? hb] at hm
    obtain ⟨e, he⟩ := Chronicle.exists_get?_take (c := s.tracker.chronicle) hm (hroom m hm)
    cases he.symm.trans hn

/-! ## Actions -/

theorem Upright.rests_takeReceipt (h : s.Upright) (user : UserId) (slot : Slot) (event : EventId) :
    s.Rests { s with server := (s.server.takeReceipt user slot event).1 } := by
  obtain ⟨htimelines, -, hnext⟩ := s.server.fields_takeReceipt user slot event
  exact ⟨h.serve (h.server.takeReceipt user slot event) (Nat.le_of_eq hnext.symm), rfl, rfl,
    htimelines⟩

theorem Upright.deliverReceipt (h : s.Upright) (scope : Scope) (event : EventId)
    (v : Visibility) : s.Rests (s.deliverReceipt scope event v) := by
  have hrests := h.rests_takeReceipt me ⟨scope, v⟩ event
  unfold Session.deliverReceipt
  revert hrests
  rcases s.server.takeReceipt me ⟨scope, v⟩ event with ⟨server, answer⟩
  intro hrests
  cases answer with
  | ok => exact hrests
  | error why => exact hrests.trans hrests.upright.rests_aside

theorem Upright.carry (h : s.Upright)
    (fetch : Fetch → Session Shelf → Session Shelf × Except Refusal Unit)
    {actions : List Action} (ha : actions.filterMap Action.request? = []) :
    ∃ s', Session.carry fetch actions s = (s', .ok ()) ∧ s.Rests s' := by
  induction actions generalizing s with
  | nil => exact ⟨s, rfl, h.rests⟩
  | cons a actions ih =>
    cases a with
    | fetch request room event => simp [Action.request?] at ha
    | send scope event v =>
      have hrests := h.deliverReceipt scope event v
      obtain ⟨s', hcarry, hrests'⟩ := ih hrests.upright ha
      exact ⟨s', hcarry, hrests.trans hrests'⟩
    | unsaved scope v why =>
      obtain ⟨s', hcarry, hrests'⟩ := ih h.aside ha
      exact ⟨s', hcarry, h.rests_aside.trans hrests'⟩

theorem Upright.observe (h : s.Upright) (move : String) :
    ∃ s', s.observe move = .ok s' ∧ s.Rests s' := by
  obtain ⟨history, hchronological, hobserve⟩ :=
    observe_eq h.checks h.stored.written h.chronological move
  refine ⟨_, hobserve, ⟨h.server, h.sound, h.delivered, h.numbered, h.gaps, h.stored,
    hchronological, h.checks⟩, rfl, rfl, rfl⟩

theorem Upright.settle (h : s.Upright) {actions : List Action}
    (ha : actions.filterMap Action.request? = []) (move : String) :
    ∃ s', s.settle actions move = .ok s' ∧ s.Rests s' := by
  obtain ⟨s₁, hcarry, hrests⟩ := h.carry fetchNow ha
  obtain ⟨s', hobserve, hrests'⟩ := hrests.upright.observe move
  refine ⟨s', ?_, hrests.trans hrests'⟩
  simp only [Session.settle, execute, hcarry, hobserve]

theorem requests_of_reply {c : Command} {t : Tracker Shelf} (hjump : c.isJump = false)
    {actions : List Action} (h : (t.handle c).reply = .ok actions) :
    actions.filterMap Action.request? = [] := by
  have hnone := t.requests_eq_nil hjump
  rwa [Answer.requests, Answer.actions, h] at hnone

theorem Upright.settleReply (h : s.Upright) {c : Command} (hc : c.isForget = false)
    (hm : c.brings = false) (hjump : c.isJump = false) {actions : List Action}
    (hreply : (s.tracker.handle c).reply = .ok actions) {move : String}
    (hok : (s.handled c s.gaps).settle actions move = .ok s') : s.Rests s' := by
  have hrests := h.rests_handled hc hm
  obtain ⟨s₁, hsettle, hrests'⟩ := hrests.upright.settle (requests_of_reply hjump hreply) move
  cases hsettle.symm.trans hok
  exact hrests.trans hrests'

theorem Upright.settleAnswer (h : s.Upright) {c : Command} (hc : c.isForget = false)
    (hm : c.brings = false) (hjump : c.isJump = false) {move : String}
    (hok : s.settleAnswer (s.tracker.handle c) move = .ok s') : s.Rests s' := by
  rw [Session.settleAnswer, after_handle hm] at hok
  cases hreply : (s.tracker.handle c).reply with
  | error why =>
    rw [hreply] at hok
    cases hok
  | ok actions =>
    rw [hreply] at hok
    exact h.settleReply hc hm hjump hreply hok

/-! ## Messages that are sent and handed over -/

def Numbered (s : Session Shelf) (events : List Message) : Prop :=
  ∀ m ∈ events, ∃ n < s.server.nextSequence, m.id = Server.eventNumbered n

theorem Upright.numbered_timeline (h : s.Upright) (room : RoomId) :
    s.Numbered (s.server.timeline room) :=
  fun m hm => ⟨m.sequence, h.server.numbered hm, h.server.named hm⟩

theorem Upright.post (h : s.Upright) {room : RoomId} {sender : UserId} {drafts : List Draft}
    {events : List Message} (hok : s.post room sender drafts = .ok (s', events)) :
    s.Keeps s' ∧ s'.tracker.chronicle.News room events ∧ s'.Numbered events := by
  have hsound := h.server.send room sender drafts
  unfold Session.post at hok
  cases hsend : s.server.send room sender drafts with
  | mk server answer =>
    rw [hsend] at hok hsound
    cases answer with
    | error why => cases hok
    | ok events =>
      cases hok
      have hsent := Server.sends_send hsend
      refine ⟨⟨h.serve hsound hsent.next, id, id⟩,
        ⟨hsent.housed, fun m hm => ?_, fun m hm m' hm' hid => ?_⟩, ?_⟩
      · refine Option.eq_none_iff_forall_ne_some.2 fun e he => ?_
        obtain ⟨n, hn, hid⟩ := h.numbered he
        rw [hsent.named m hm] at hid
        have hnew := hsent.new m hm
        rw [Reference.eventNumbered_injective hid] at hnew
        omega
      · rw [hsent.named m hm, hsent.named m' hm'] at hid
        exact Reference.eventNumbered_injective hid
      · exact fun m hm => ⟨m.sequence, hsent.numbered m hm, hsent.named m hm⟩

def gapsWith (s : Session Shelf) (room : RoomId) (events : List Message) (limited : Bool) :
    Table RoomId (List Nat) :=
  match limited, (events.map (·.sequence)).min? with
  | true, some first => s.gaps.insert room ((s.gaps.get? room).getD [] ++ [first])
  | _, _ => s.gaps

theorem mem_gapsWith_of_mem {room room' : RoomId} {events : List Message} {limited : Bool} {g : Nat}
    (h : g ∈ (s.gaps.get? room').getD []) :
    g ∈ ((s.gapsWith room events limited).get? room').getD [] := by
  unfold gapsWith
  split
  · rw [Table.get?_insert]
    split
    next e =>
      rw [e] at h
      exact List.mem_append_left _ h
    next => exact h
  · exact h

theorem mem_gapsWith {room : RoomId} {events : List Message} {g : Nat}
    (h : (events.map (·.sequence)).min? = some g) :
    g ∈ ((s.gapsWith room events true).get? room).getD [] := by
  simp only [gapsWith, h, Table.get?_insert_self]
  exact List.mem_append_right _ List.mem_cons_self

theorem deliver_ok {room : RoomId} {events : List Message} {limited : Bool}
    (hok : s.deliver room events limited = .ok s') : ∃ actions,
      (s.tracker.handle (.receive room events limited)).reply = .ok actions ∧
      (s.handled (.receive room events limited) (s.gapsWith room events limited)).execute actions =
        (s', .ok ()) := by
  unfold Session.deliver at hok
  dsimp only at hok
  split at hok
  next s₁ actions hafter =>
    have hnoted : s₁ = s.handled (.receive room events limited) (s.gapsWith room events limited) ∧
        (s.tracker.handle (.receive room events limited)).reply = .ok actions := by
      unfold gapsWith
      revert hafter
      cases limited <;> cases (events.map (·.sequence)).min? <;>
        exact fun h => ⟨(congrArg Prod.fst h).symm, congrArg Prod.snd h⟩
    obtain ⟨rfl, hreply⟩ := hnoted
    split at hok
    next s₂ hexecute =>
      cases hok
      exact ⟨actions, hreply, hexecute⟩
    next => cases hok
  next => cases hok

theorem Upright.deliver (h : s.Upright) {room : RoomId} {events : List Message} {limited : Bool}
    (hroom : ∀ m ∈ events, m.room = room) (hnumbered : s.Numbered events)
    (hnews : limited = true → s.tracker.chronicle.News room events)
    (hok : s.deliver room events limited = .ok s') : s.Keeps s' := by
  have hb : s.tracker.batch? (.receive room events limited) = some ⟨room, events, limited, none⟩ :=
    rfl
  have hupright : (s.handled (.receive room events limited)
      (s.gapsWith room events limited)).Upright := by
    refine h.handle (c := .receive room events limited) rfl hnumbered fun {scope g} hg => .inl ?_
    rw [Tracker.chronicle_loaded hb] at hg
    rcases h.sound.gaps_take_cases (b := ⟨room, events, limited, none⟩) hnews hg with
      ⟨hg, -⟩ | ⟨hl, hroom, hmin⟩
    · exact mem_gapsWith_of_mem ((h.gaps hg).resolve_right List.not_mem_nil)
    · cases hl
      rw [show scope.room = room from hroom]
      exact mem_gapsWith hmin
  obtain ⟨actions, hreply, hexecute⟩ := deliver_ok hok
  obtain ⟨s₁, hcarry, hrests⟩ := hupright.carry fetchNow (requests_of_reply rfl hreply)
  cases hcarry.symm.trans hexecute
  refine .trans ⟨hupright, fun hd => ?_, fun ha => ?_⟩ hrests.keeps
  · exact contains_delivered_handled.2 (.inl hd)
  · exact astray_of_handled rfl hb hroom ha

/-! ## Answers to requests -/

theorem Server.mem_around {server : Server} {room : RoomId} {event : EventId} {n : Nat}
    {m : Message} (h : m ∈ server.around room event n) : m ∈ server.timeline room := by
  unfold Server.around at h
  dsimp only at h
  split at h
  · cases h
  · exact List.mem_of_mem_take (List.mem_of_mem_drop h)

def WaitsFor (s : Session Shelf) (f : Fetch) : Prop :=
  ∃ a ∈ s.tracker.awaited, a.request = f.request ∧ a.room = f.room

def answering (s : Session Shelf) (f : Fetch) : List Message :=
  s.server.around f.room f.event radius

structure Answered (s : Session Shelf) (f : Fetch) (s' : Session Shelf) : Prop where
  upright : s'.Upright
  delivered : ∀ {id}, s'.delivered.contains id = true ↔
    s.delivered.contains id = true ∨ ∃ m ∈ s.answering f, m.id = id
  astray : ∀ {id}, s'.Astray id →
    s.Astray id ∨ ¬ s.WaitsFor f ∧ ∃ m ∈ s.answering f, m.id = id

theorem Upright.answered (h : s.Upright) (f : Fetch) : s.Answered f (Session.answer f s).1 := by
  let c : Command := .supply f.request (s.answering f)
  have hforget : c.isForget = false := rfl
  have htimeline : ∀ m ∈ s.answering f, m ∈ s.server.timeline f.room :=
    fun m hm => Server.mem_around hm
  have hupright : (s.handled c s.gaps).Upright := by
    refine h.handle hforget (fun m hm => h.numbered_timeline f.room m (htimeline m hm)) fun hg => ?_
    cases hb : s.tracker.batch? c with
    | none =>
      rw [Tracker.loaded_eq_self hb] at hg
      exact h.gaps hg
    | some b =>
      obtain ⟨a, -, rfl⟩ := Option.map_eq_some_iff.1 hb
      rw [Tracker.chronicle_loaded hb, h.sound.gaps_take rfl rfl] at hg
      exact h.gaps hg
  have hanswered : s.Answered f (s.handled c s.gaps) := by
    refine ⟨hupright, contains_delivered_handled, fun {id} ha => ?_⟩
    by_cases hw : s.WaitsFor f
    · obtain ⟨a, hawaited, hrequest, hroom⟩ := hw
      have hb : s.tracker.batch? c = some ⟨a.room, s.answering f, false, none⟩ := by
        show s.tracker.batch? (.supply f.request (s.answering f)) = _
        rw [← hrequest]
        exact Tracker.batch?_supply hawaited _
      refine .inl (astray_of_handled hforget hb (fun m hm => ?_) ha)
      exact (h.server.housed (htimeline m hm)).trans hroom.symm
    · rcases contains_delivered_handled.1 ha.1 with hd | hm
      · refine .inl ⟨hd, Option.eq_none_iff_forall_ne_some.2 fun e he => ?_⟩
        have hkept := Tracker.get?_loaded_of_some he c
        rw [← s.tracker.chronicle_handle (Command.ne_forget hforget)] at hkept
        cases hkept.symm.trans ha.2
      · exact .inr ⟨hw, hm⟩
  unfold Session.answer
  dsimp only
  split
  next s₁ actions hafter =>
    obtain rfl : s₁ = s.handled c s.gaps := (congrArg Prod.fst hafter).symm
    have hreply : (s.tracker.handle c).reply = .ok actions := congrArg Prod.snd hafter
    obtain ⟨s', hcarry, hrests⟩ := hupright.carry keep (requests_of_reply rfl hreply)
    rw [hcarry]
    refine ⟨hrests.upright, ?_, fun ha => hanswered.astray (hrests.keeps.astray ha)⟩
    rw [hrests.delivered]
    exact hanswered.delivered
  next s₁ why hafter =>
    obtain rfl : s₁ = s.handled c s.gaps := (congrArg Prod.fst hafter).symm
    exact hanswered

end Session

end ReadTracking
