import ReadTracking.Proofs.Agreement
import ReadTracking.Proofs.CatchingUp
import ReadTracking.Proofs.Replay
import ReadTracking.Proofs.Restarting
import ReadTracking.Session.Perform

/-!
# How events go astray

Two moves leave events astray.  An answer that was kept back counts as handed over even if the jump
that it was for is no longer waiting, and the tracker puts it aside.  The events of a forgotten room
go on counting as handed over.  No other move leads an event astray, and a restart brings every
event back.  So a run tells which events catching up passes by: those that are not indexed although
a late answer or a forgotten room dropped them after the last restart.
-/

set_option autoImplicit false

namespace ReadTracking

open Backing

theorem exists_of_bind_eq_ok {ε α β : Type} {x : Except ε α} {f : α → Except ε β} {b : β}
    (h : (x >>= f) = .ok b) : ∃ a, x = .ok a ∧ f a = .ok b := by
  cases x with
  | error why => cases h
  | ok a => exact ⟨a, rfl, h⟩

namespace Session

theorem of_always {σ : Type} {played : Except Halt (Session σ)} {s : Session σ}
    {answer : Except Refusal Unit} (h : always played = .ok (s, answer)) : played = .ok s := by
  cases played with
  | error why => cases h
  | ok s =>
    cases h
    rfl

theorem play_of_perform {σ : Type} [Backing σ] {s : Session σ} {m : Move}
    {outcome : Session σ × Except Refusal Unit} (h : s.perform m = .ok outcome) :
    s.play m = .ok outcome := by
  unfold perform at h
  split at h
  · cases h
  · exact h

def performAll {σ : Type} [Backing σ] : List Move → Session σ → Except Halt (Session σ)
  | [], s => .ok s
  | m :: ms, s => do
    let (s, _) ← s.perform m
    performAll ms s

/-- A move drops an event: it hands the event over in an answer that no jump waits for, or forgets
the room of the event. -/
def Drops (s : Session Shelf) : Move → EventId → Prop
  | .answerHeld, id => ∃ f ∈ s.waiting, ¬ s.WaitsFor f ∧ ∃ m ∈ s.answering f, m.id = id
  | .forgetRoom name, id =>
    ∃ e ∈ s.tracker.chronicle.get? id, s.roomOf name = .ok e.message.room
  | _, _ => False

def Dropped : List Move → Session Shelf → EventId → Prop
  | [], _, _ => False
  | m :: ms, s, id => s.Drops m id ∧ .restart ∉ ms ∨
      ∃ outcome ∈ (s.perform m).toOption, Dropped ms outcome.1 id

instance (s : Session Shelf) (f : Fetch) : Decidable (s.WaitsFor f) :=
  inferInstanceAs (Decidable (∃ a ∈ s.tracker.awaited, a.request = f.request ∧ a.room = f.room))

instance decidableDrops (s : Session Shelf) : (m : Move) → (id : EventId) →
    Decidable (s.Drops m id)
  | .answerHeld, id => inferInstanceAs
      (Decidable (∃ f ∈ s.waiting, ¬ s.WaitsFor f ∧ ∃ m ∈ s.answering f, m.id = id))
  | .forgetRoom name, id => inferInstanceAs
      (Decidable (∃ e ∈ s.tracker.chronicle.get? id, s.roomOf name = .ok e.message.room))
  | .createRoom _, _ | .enter _, _ | .leave, _ | .openThread _, _ | .closeThread, _
  | .markRead _, _ | .jump _ _ _, _ | .hold _, _ | .botSends _ _, _ | .botMentions _ _, _
  | .botSendsUnseen _ _, _ | .botSendsAfterGap _ _, _ | .userSends _ _, _ | .catchUp _, _
  | .readElsewhere _ _ _, _ | .memberReads _ _, _ | .refuseReceipts _, _ | .restart, _
  | .wait _, _ => isFalse id

instance decidableDropped : (ms : List Move) → (s : Session Shelf) → (id : EventId) →
    Decidable (Dropped ms s id)
  | [], _, _ => isFalse id
  | m :: ms, s, id =>
    have : DecidablePred fun outcome : Session Shelf × Except Refusal Unit =>
      Dropped ms outcome.1 id := fun outcome => decidableDropped ms outcome.1 id
    inferInstanceAs (Decidable (s.Drops m id ∧ .restart ∉ ms ∨
      ∃ outcome ∈ (s.perform m).toOption, Dropped ms outcome.1 id))

variable {s s' s₁ : Session Shelf} {room : RoomId}

/-! ## Moves that lead nothing astray -/

theorem Keeps.observe (h : s.Keeps s₁) {move : String} (hok : s₁.observe move = .ok s') :
    s.Keeps s' := by
  obtain ⟨s₂, hobserve, hrests⟩ := h.upright.observe move
  cases hobserve.symm.trans hok
  exact h.trans hrests.keeps

theorem Upright.send (h : s.Upright) {sender : UserId} {drafts : List Draft}
    {events : List Message} {limited : Bool} {move : String} {s₂ : Session Shelf}
    (hpost : s.post room sender drafts = .ok (s₁, events))
    (hdeliver : s₁.deliver room events limited = .ok s₂) (hobserve : s₂.observe move = .ok s') :
    s.Keeps s' := by
  obtain ⟨hkeeps, hnews, hnumbered⟩ := h.post hpost
  have hdelivered := hkeeps.upright.deliver hnews.room hnumbered (fun _ => hnews) hdeliver
  exact (hkeeps.trans hdelivered).observe hobserve

theorem Upright.createRoom (h : s.Upright) {name : String}
    (hok : s.createRoom name = .ok (s', room)) : s.Keeps s' := by
  unfold Session.createRoom at hok
  have hnext : (s.server.createRoom name).1.nextSequence = s.server.nextSequence := by
    unfold Server.createRoom
    dsimp only
    split <;> rfl
  have hserved : s.Keeps { s with
      server := (s.server.createRoom name).1
      rooms := s.rooms.insert name (s.server.createRoom name).2 } :=
    ⟨(h.serve (h.server.createRoom name) (Nat.le_of_eq hnext.symm)).aside, id, id⟩
  obtain ⟨⟨s₁, events⟩, hpost, hok⟩ := exists_of_bind_eq_ok hok
  obtain ⟨s₂, hdeliver, hok⟩ := exists_of_bind_eq_ok hok
  obtain ⟨s₃, hobserve, hok⟩ := exists_of_bind_eq_ok hok
  cases hok
  exact hserved.trans (hserved.upright.send hpost hdeliver hobserve)

theorem Upright.sends (h : s.Upright) {name : String} {sender : UserId} {drafts : List Draft}
    {limited : Bool} {move : String}
    (hok : (do
      let room ← s.roomOf name
      let (s, events) ← s.post room sender drafts
      let s ← s.deliver room events limited
      s.observe move) = .ok s') : s.Keeps s' := by
  obtain ⟨room, -, hok⟩ := exists_of_bind_eq_ok hok
  obtain ⟨⟨s₁, events⟩, hpost, hok⟩ := exists_of_bind_eq_ok hok
  obtain ⟨s₂, hdeliver, hobserve⟩ := exists_of_bind_eq_ok hok
  exact h.send hpost hdeliver hobserve

theorem Upright.botMentions (h : s.Upright) {name : String} {drafts : List Draft}
    (hok : s.botMentions name drafts = .ok s') : s.Keeps s' := by
  obtain ⟨room, -, hok⟩ := exists_of_bind_eq_ok hok
  obtain ⟨⟨s₁, events⟩, hpost, hok⟩ := exists_of_bind_eq_ok hok
  obtain ⟨s₂, hdeliver, hobserve⟩ := exists_of_bind_eq_ok hok
  obtain ⟨hkeeps, hnews, hnumbered⟩ := h.post hpost
  refine (hkeeps.trans (hkeeps.upright.deliver ?_ ?_ ?_ hdeliver)).observe hobserve
  · exact List.forall_mem_map.2 hnews.room
  · exact List.forall_mem_map.2 hnumbered
  · exact fun hl => absurd hl Bool.false_ne_true

theorem Upright.botSendsUnseen (h : s.Upright) {name : String} {drafts : List Draft}
    (hok : s.botSendsUnseen name drafts = .ok s') : s.Keeps s' := by
  obtain ⟨room, -, hok⟩ := exists_of_bind_eq_ok hok
  obtain ⟨⟨s₁, events⟩, hpost, hok⟩ := exists_of_bind_eq_ok hok
  cases hok
  exact (h.post hpost).1

theorem Upright.enter (h : s.Upright) {name : String} (hok : s.enter name = .ok s') :
    s.Rests s' := by
  obtain ⟨room, -, hok⟩ := exists_of_bind_eq_ok hok
  have haside : s.Rests { s with current := some room } := h.rests_aside
  exact haside.trans (haside.upright.settleAnswer (c := .viewRoom room) rfl rfl rfl hok)

theorem Upright.leave (h : s.Upright) (hok : s.leave = .ok s') : s.Rests s' := by
  have haside : s.Rests { s with current := none } := h.rests_aside
  exact haside.trans (haside.upright.settleAnswer (c := .leave) rfl rfl rfl hok)

theorem Upright.openThread (h : s.Upright) {body : String} (hok : s.openThread body = .ok s') :
    s.Rests s' := by
  unfold Session.openThread at hok
  cases hcurrent : s.current with
  | none =>
    rw [hcurrent] at hok
    cases hok
  | some room =>
    rw [hcurrent] at hok
    obtain ⟨room, -, hok⟩ := exists_of_bind_eq_ok hok
    obtain ⟨root, -, hok⟩ := exists_of_bind_eq_ok hok
    have hafter : s.after (s.tracker.viewThread room root) =
        (s.handled (.viewThread room root) s.gaps,
          (s.tracker.handle (.viewThread room root)).reply) :=
      after_handle (c := .viewThread room root) rfl
    rw [hafter] at hok
    cases hreply : (s.tracker.handle (.viewThread room root)).reply with
    | error why =>
      rw [hreply] at hok
      cases hok
    | ok actions =>
      rw [hreply] at hok
      exact h.settleReply rfl rfl rfl hreply hok

theorem Upright.markRead (h : s.Upright) {name : String} (hok : s.markRead name = .ok s') :
    s.Rests s' := by
  obtain ⟨room, -, hok⟩ := exists_of_bind_eq_ok hok
  exact h.settleAnswer (c := .markRoomRead room) rfl rfl rfl hok

theorem Upright.readElsewhere (h : s.Upright) {name body : String} {reach : Reach}
    (hok : s.readElsewhere name body reach = .ok s') : s.Rests s' := by
  obtain ⟨room, -, hok⟩ := exists_of_bind_eq_ok hok
  obtain ⟨event, -, hok⟩ := exists_of_bind_eq_ok hok
  have htaken := h.rests_takeReceipt me ⟨s.server.scopeOf room event, .shared⟩ event
  revert htaken
  dsimp only at hok
  split at hok
  next => cases hok
  next server htake =>
    rw [htake]
    intro htaken
    exact htaken.trans
      (htaken.upright.settleAnswer (c := .receipt room me event .shared reach) rfl rfl rfl hok)

theorem Upright.memberReads (h : s.Upright) {name body : String}
    (hok : s.memberReads name body = .ok s') : s.Rests s' := by
  obtain ⟨room, -, hok⟩ := exists_of_bind_eq_ok hok
  obtain ⟨event, -, hok⟩ := exists_of_bind_eq_ok hok
  exact h.settleAnswer (c := .receipt room alice event .shared .scope) rfl rfl rfl hok

theorem Upright.wait (h : s.Upright) {millis : Nat} (hok : s.wait millis = .ok s') :
    s.Rests s' := by
  let ambient := s.tracker.ambient.wait (millis * Ambient.nanosPerMilli)
  have haside : s.Rests { s with tracker := { s.tracker with ambient } } := h.rests_aside
  exact haside.trans
    (haside.upright.settleAnswer (c := .tick ambient.elapsed) rfl rfl rfl hok)

theorem Upright.refuseReceipts (h : s.Upright) (on : Bool) :
    s.Rests { s with server := { s.server with rejecting := on } } :=
  ⟨h.serve (h.server.congr (fun _ => rfl) rfl (Nat.le_refl _)) (Nat.le_refl _), rfl, rfl, rfl⟩

/-! ## Jumps and their answers -/

/-- An answer that a jump waits for leads nothing astray. -/
theorem Answered.keeps {f : Fetch} (h : s.Answered f s') (hw : s.WaitsFor f) : s.Keeps s' :=
  ⟨h.upright, fun hd => h.delivered.2 (.inl hd),
    fun ha => (h.astray ha).resolve_right fun hdropped => hdropped.1 hw⟩

theorem Upright.fetchNow (h : s.Upright) {f : Fetch} (hw : s.WaitsFor f) :
    s.Keeps (Session.fetchNow f s).1 := by
  unfold Session.fetchNow
  split
  · exact h.rests_aside.keeps
  · exact (h.answered f).keeps hw

def AsksOnce (s : Session Shelf) (actions : List Action) : Prop :=
  actions.filterMap Action.request? = [] ∨
    ∃ f sends, actions = .fetch f.request f.room f.event :: sends ∧
      sends.filterMap Action.request? = [] ∧ s.WaitsFor f

theorem Upright.execute (h : s.Upright) {actions : List Action} (ha : s.AsksOnce actions) :
    s.Keeps (s.execute actions).1 := by
  rcases ha with hnone | ⟨f, sends, rfl, hnone, hw⟩
  · obtain ⟨s', hcarry, hrests⟩ := h.carry Session.fetchNow hnone
    rw [Session.execute, hcarry]
    exact hrests.keeps
  · have hfetched := h.fetchNow hw
    obtain ⟨s', hcarry, hrests⟩ := hfetched.upright.carry Session.fetchNow hnone
    have hexecute : (s.execute (.fetch f.request f.room f.event :: sends)).1 =
        (Session.carry Session.fetchNow sends (Session.fetchNow f s).1).1 := rfl
    rw [hexecute, hcarry]
    exact hfetched.trans hrests.keeps

theorem asksOnce_jump {event : EventId} {includeThreads : Bool} {actions : List Action}
    (hreply : (s.tracker.handle (.jump room event includeThreads)).reply = .ok actions) :
    (s.handled (.jump room event includeThreads) s.gaps).AsksOnce actions := by
  rcases s.tracker.jump_asks room event includeThreads with
    hnone | ⟨request, sends, hasks, hnone, hawaited⟩
  · left
    have hactions : (s.tracker.handle (.jump room event includeThreads)).actions = actions := by
      rw [Answer.actions, hreply]
      rfl
    rw [← hactions]
    exact hnone
  · cases hreply.symm.trans hasks
    exact .inr ⟨⟨request, room, event⟩, sends, rfl, hnone, _, hawaited, rfl, rfl⟩

theorem Upright.jump (h : s.Upright) {name body : String} {includeThreads : Bool}
    {answer : Except Refusal Unit} (hok : s.jump name body includeThreads = .ok (s', answer)) :
    s.Keeps s' := by
  obtain ⟨room, -, hok⟩ := exists_of_bind_eq_ok hok
  obtain ⟨event, -, hok⟩ := exists_of_bind_eq_ok hok
  have hafter : s.after (s.tracker.jump room event includeThreads) =
      (s.handled (.jump room event includeThreads) s.gaps,
        (s.tracker.handle (.jump room event includeThreads)).reply) :=
    after_handle (c := .jump room event includeThreads) rfl
  have hrests := h.rests_handled (c := .jump room event includeThreads) rfl rfl
  rw [hafter] at hok
  cases hreply : (s.tracker.handle (.jump room event includeThreads)).reply with
  | error why =>
    rw [hreply] at hok
    cases hok
    exact hrests.keeps
  | ok actions =>
    rw [hreply] at hok
    have haside : s.Keeps { s.handled (.jump room event includeThreads) s.gaps with
        current := some room } := (hrests.trans hrests.upright.rests_aside).keeps
    have hexecuted := haside.upright.execute (asksOnce_jump hreply)
    obtain ⟨s₂, hobserve, hok⟩ := exists_of_bind_eq_ok hok
    cases hok
    exact (haside.trans hexecuted).observe hobserve

/-! ## Moves that drop events -/

/-- A move leads an event astray only by dropping it, and whatever was handed over or dropped counts
as handed over.  A restart begins anew. -/
structure Goes (s : Session Shelf) (m : Move) (s' : Session Shelf) : Prop where
  upright : s'.Upright
  delivered : ∀ {id}, m ≠ .restart ∧ s.delivered.contains id = true ∨ s.Drops m id →
    s'.delivered.contains id = true
  astray : ∀ {id}, s'.Astray id → m ≠ .restart ∧ s.Astray id ∨ s.Drops m id

theorem Keeps.goes (h : s.Keeps s') {m : Move} (hm : m ≠ .restart) (hdrops : ∀ id, ¬ s.Drops m id) :
    s.Goes m s' :=
  ⟨h.upright, fun hd => h.delivered (hd.resolve_right (hdrops _)).2,
    fun ha => .inl ⟨hm, h.astray ha⟩⟩

theorem Goes.rests {m : Move} (h : s.Goes m s₁) (h' : s₁.Rests s') : s.Goes m s' :=
  ⟨h'.upright, fun hd => h'.keeps.delivered (h.delivered hd),
    fun ha => h.astray (h'.keeps.astray ha)⟩

theorem Upright.answerHeld (h : s.Upright) {answer : Except Refusal Unit}
    (hok : s.answerHeld = .ok (s', answer)) : s.Goes .answerHeld s' := by
  unfold Session.answerHeld at hok
  cases hwaiting : s.waiting with
  | none =>
    rw [hwaiting] at hok
    cases hok
    refine h.rests.keeps.goes nofun fun id hdrops => ?_
    obtain ⟨f, hf, -⟩ := hdrops
    cases hwaiting.symm.trans hf
  | some f =>
    rw [hwaiting] at hok
    obtain ⟨s₂, hobserve, hok⟩ := exists_of_bind_eq_ok hok
    cases hok
    have haside : ({ s with waiting := none } : Session Shelf).Upright := h.aside
    have hanswered := haside.answered f
    obtain ⟨s₂, hobserve', hrests⟩ := hanswered.upright.observe "answer_held_context"
    cases hobserve'.symm.trans hobserve
    have hgoes : s.Goes .answerHeld (Session.answer f { s with waiting := none }).1 := by
      refine ⟨hanswered.upright, fun hd => hanswered.delivered.2 (hd.imp And.right ?_),
        fun ha => (hanswered.astray ha).imp (fun ha => ⟨nofun, ha⟩) fun hd => ⟨f, hwaiting, hd⟩⟩
      rintro ⟨f', hf', -, hm⟩
      cases hwaiting.symm.trans hf'
      exact hm
    exact hgoes.rests hrests

def without (s : Session Shelf) (name : String) (room : RoomId) : Session Shelf :=
  { s with
    tracker := (s.tracker.handle (.forget room)).tracker
    dated := s.dated || (s.tracker.handle (.forget room)).dated
    history := s.history.filter fun scope _ => scope.room != room
    rooms := s.rooms.erase name
    current := s.current.filter (· != room) }

theorem get?_without (h : s.Upright) (name : String) (room : RoomId) (id : EventId) :
    (s.without name room).tracker.chronicle.get? id =
      (s.tracker.chronicle.get? id).filter fun e => e.message.room != room :=
  (congrArg (Chronicle.get? · id) (Tracker.chronicle_forget room)).trans
    (h.sound.get?_forget room id)

theorem Upright.without (h : s.Upright) (name : String) (room : RoomId) :
    (s.without name room).Upright := by
  have hchronicle : (s.without name room).tracker.chronicle = (s.tracker.chronicle.forget room).1 :=
    Tracker.chronicle_forget room
  have hold : ∀ {id e}, (s.without name room).tracker.chronicle.get? id = some e →
      s.tracker.chronicle.get? id = some e := by
    intro id e he
    rw [get?_without h, Option.filter_eq_some_iff] at he
    exact he.1
  constructor
  case server => exact h.server
  case sound => exact hchronicle ▸ h.sound.forget room
  case delivered => exact fun he => h.delivered (hold he)
  case numbered => exact fun he => h.numbered (hold he)
  case gaps =>
    intro scope g hg
    rw [hchronicle, Chronicle.strand_forget] at hg
    split at hg
    · cases hg
    · exact h.gaps hg
  case stored => exact Tracker.stored_handle h.stored h.sound (.forget room)
  case chronological =>
    have hbook : (s.without name room).tracker.book = (s.tracker.book.forget room).1 :=
      s.tracker.book_forget room
    rw [hbook]
    exact MarkerBook.Stored.chronological_forget h.chronological
  case checks => exact h.checks

theorem Upright.forgetRoom (h : s.Upright) {name : String} (hok : s.forgetRoom name = .ok s') :
    s.Goes (.forgetRoom name) s' := by
  obtain ⟨room, hroom, hok⟩ := exists_of_bind_eq_ok hok
  have hwithout := h.without name room
  have hgone : s.Goes (.forgetRoom name) (s.without name room) := by
    refine ⟨hwithout, fun {id} hd => ?_, fun {id} ha => ?_⟩
    · show s.delivered.contains id = true
      rcases hd with ⟨-, hd⟩ | ⟨e, he, -⟩
      · exact hd
      · exact h.delivered he
    · obtain ⟨hd, hnone⟩ := ha
      rw [get?_without h] at hnone
      cases he : s.tracker.chronicle.get? id with
      | none => exact .inl ⟨nofun, hd, he⟩
      | some e =>
        rw [he, Option.filter_some] at hnone
        split at hnone
        next => cases hnone
        next hsame =>
          refine .inr ⟨e, he, ?_⟩
          rw [hroom, not_not.1 (mt bne_iff_ne.2 hsame)]
  have hafter : s.after (s.tracker.forget room) =
      ((s.after (s.tracker.forget room)).1, (s.tracker.handle (.forget room)).reply) := rfl
  rw [hafter] at hok
  cases hreply : (s.tracker.handle (.forget room)).reply with
  | error why =>
    rw [hreply] at hok
    cases hok
  | ok actions =>
    rw [hreply] at hok
    obtain ⟨s₁, hsettle, hrests⟩ :=
      hwithout.settle (requests_of_reply (c := .forget room) rfl hreply) "forget_room"
    cases hsettle.symm.trans hok
    exact hgone.rests hrests

/-! ## Sessions that begin, and begin anew -/

theorem upright_of_opened {storage : Shelf} (hserver : s.server.Sound)
    (hopen : (MarkerBook.openOver storage).1 = .ok s.tracker.book) {judge : Judge}
    (hchronicle : s.tracker.chronicle = .empty judge)
    (hchronological : Chronological s.history s.tracker.book)
    (hchecks : s.checks = Check.standard) : s.Upright := by
  constructor
  case server => exact hserver
  case sound => exact hchronicle ▸ Chronicle.sound_empty judge
  case delivered =>
    intro id e he
    rw [hchronicle] at he
    cases he
  case numbered =>
    intro id e he
    rw [hchronicle] at he
    cases he
  case gaps =>
    intro scope g hg
    rw [hchronicle] at hg
    obtain ⟨room, thread⟩ := scope
    cases thread <;> cases hg
  case stored =>
    have hbook : s.tracker.book = ⟨storage, MarkerBook.marksOf storage.entries, .empty⟩ :=
      (Except.ok.inj hopen).symm
    refine ⟨MarkerBook.writtenThrough_of_openOver trivial hopen, fun slot => ?_⟩
    rw [hbook]
    rfl
  case chronological => exact hchronological
  case checks => exact hchecks

theorem upright_of_openOver {ambient : Ambient} {policy : Policy} {storage : Shelf}
    (hopen : (Session.openOver ambient policy storage).1 = .ok s) :
    s.Upright ∧ ∀ id, ¬ s.Astray id := by
  cases hopen
  have hlisted : (MarkerBook.openOver storage).1 =
    .ok ⟨storage, MarkerBook.marksOf storage.entries, .empty⟩ := rfl
  exact ⟨upright_of_opened Server.sound_start hlisted rfl nofun rfl,
    fun id ha => Bool.false_ne_true ha.1⟩

/-- The shelf can be listed, and the markers on it are those that the tracker had. -/
theorem Upright.reopened (h : s.Upright) :
    (s.reopened s.tracker.book.storage.entries s.tracker.book.storage).Upright := by
  have hopen : (MarkerBook.openOver s.tracker.book.storage).1 =
    .ok (s.reopened s.tracker.book.storage.entries s.tracker.book.storage).tracker.book := rfl
  have hmarks : MarkerBook.marksOf s.tracker.book.storage.entries = s.tracker.book.marks :=
    (MarkerBook.marks_of_openOver trivial hopen).trans h.stored.marks_eq
  refine upright_of_opened h.server hopen rfl (h.chronological.mono fun scope q hq => ?_) h.checks
  rw [← hq]
  exact MarkerBook.covers_congr hmarks scope q

theorem Upright.deliverTimelines (h : s.Upright) {rooms : List RoomId}
    (hok : Session.deliverTimelines rooms s = .ok s') : s.Keeps s' := by
  induction rooms generalizing s with
  | nil =>
    cases hok
    exact h.rests.keeps
  | cons room rooms ih =>
    obtain ⟨s₁, hdeliver, hok⟩ := exists_of_bind_eq_ok hok
    have hkeeps := h.deliver (fun m hm => h.server.housed hm) (h.numbered_timeline room)
      (fun hl => absurd hl Bool.false_ne_true) hdeliver
    exact hkeeps.trans (ih hkeeps.upright hok)

theorem Upright.deliverReceipts (h : s.Upright) (kept : List (ReceiptKey × KeptReceipt)) :
    s.Rests (Session.deliverReceipts kept s).1 := by
  induction kept generalizing s with
  | nil => exact h.rests
  | cons r kept ih =>
    obtain ⟨key, receipt⟩ := r
    let c : Command :=
      .receipt key.slot.scope.room me receipt.event key.slot.visibility .scope
    have hrests := h.rests_handled (c := c) rfl rfl
    have hafter : s.after (s.tracker.receipt key.slot.scope.room me receipt.event
        key.slot.visibility .scope) = (s.handled c s.gaps, (s.tracker.handle c).reply) :=
      after_handle (c := c) rfl
    rw [Session.deliverReceipts, hafter]
    cases hreply : (s.tracker.handle c).reply with
    | error why => exact hrests
    | ok actions =>
      obtain ⟨s₁, hcarry, hrests'⟩ :=
        hrests.upright.carry Session.fetchNow (requests_of_reply rfl hreply)
      dsimp only
      rw [Session.execute, hcarry]
      exact (hrests.trans hrests').trans (ih hrests'.upright)

theorem Upright.restart (h : s.Upright) {answer : Except Refusal Unit}
    (hok : s.restart = .ok (s', answer)) : s.Goes .restart s' := by
  -- The session that begins anew has handed nothing over, so that nothing is astray in it.
  suffices hkeeps :
      (s.reopened s.tracker.book.storage.entries s.tracker.book.storage).Keeps s' from
    ⟨hkeeps.upright, fun hd => hd.elim (fun hd => absurd rfl hd.1) False.elim,
      fun ha => absurd (hkeeps.astray ha).1 Bool.false_ne_true⟩
  obtain ⟨s₁, htimelines, hok⟩ := exists_of_bind_eq_ok
    (x := Session.deliverTimelines s.joined
      (s.reopened s.tracker.book.storage.entries s.tracker.book.storage)) hok
  have hkeeps := h.reopened.deliverTimelines htimelines
  have hreceipts := hkeeps.upright.deliverReceipts (s₁.server.receiptsOf me)
  rcases hdelivered : Session.deliverReceipts (s₁.server.receiptsOf me) s₁ with ⟨s₂, received⟩
  rw [hdelivered] at hok hreceipts
  cases received with
  | error why =>
    cases hok
    exact hkeeps.trans hreceipts.keeps
  | ok =>
    obtain ⟨s₃, hobserve, hok⟩ := exists_of_bind_eq_ok hok
    cases hok
    exact (hkeeps.trans hreceipts.keeps).observe hobserve

/-! ## Runs -/

theorem Upright.play (h : s.Upright) {m : Move} {answer : Except Refusal Unit}
    (hok : s.play m = .ok (s', answer)) : s.Goes m s' := by
  cases m with
  | createRoom name =>
    have hplayed := of_always hok
    cases hcreate : s.createRoom name with
    | error why =>
      rw [hcreate] at hplayed
      cases hplayed
    | ok created =>
      rw [hcreate] at hplayed
      cases hplayed
      exact (h.createRoom hcreate).goes nofun fun _ => id
  | enter name => exact (h.enter (of_always hok)).keeps.goes nofun fun _ => id
  | leave => exact (h.leave (of_always hok)).keeps.goes nofun fun _ => id
  | openThread body => exact (h.openThread (of_always hok)).keeps.goes nofun fun _ => id
  | closeThread =>
    exact (h.settleAnswer (c := .closeThread) rfl rfl rfl (of_always hok)).keeps.goes nofun
      fun _ => id
  | markRead name => exact (h.markRead (of_always hok)).keeps.goes nofun fun _ => id
  | jump name body includeThreads => exact (h.jump hok).goes nofun fun _ => id
  | hold on =>
    cases hok
    exact h.rests_aside.keeps.goes nofun fun _ => id
  | answerHeld => exact h.answerHeld hok
  | botSends name drafts => exact (h.sends (of_always hok)).goes nofun fun _ => id
  | botMentions name drafts => exact (h.botMentions (of_always hok)).goes nofun fun _ => id
  | botSendsUnseen name drafts => exact (h.botSendsUnseen (of_always hok)).goes nofun fun _ => id
  | botSendsAfterGap name drafts => exact (h.sends (of_always hok)).goes nofun fun _ => id
  | userSends name drafts => exact (h.sends (of_always hok)).goes nofun fun _ => id
  | catchUp name =>
    have hcatch := of_always hok
    obtain ⟨room, hroom, -⟩ := exists_of_bind_eq_ok hcatch
    obtain ⟨s₁, hcaught, hcaughtUp⟩ := h.catchUp hroom
    cases hcaught.symm.trans hcatch
    exact hcaughtUp.toKeeps.goes nofun fun _ => id
  | readElsewhere name body reach =>
    exact (h.readElsewhere (of_always hok)).keeps.goes nofun fun _ => id
  | memberReads name body => exact (h.memberReads (of_always hok)).keeps.goes nofun fun _ => id
  | refuseReceipts on =>
    cases hok
    exact (h.refuseReceipts on).keeps.goes nofun fun _ => id
  | restart => exact h.restart hok
  | forgetRoom name => exact h.forgetRoom (of_always hok)
  | wait millis => exact (h.wait (of_always hok)).keeps.goes nofun fun _ => id

structure Ran (s : Session Shelf) (ms : List Move) (s' : Session Shelf) : Prop where
  upright : s'.Upright
  delivered : ∀ {id}, .restart ∉ ms ∧ s.delivered.contains id = true ∨ Dropped ms s id →
    s'.delivered.contains id = true
  astray : ∀ {id}, s'.Astray id → .restart ∉ ms ∧ s.Astray id ∨ Dropped ms s id

theorem Upright.performAll (h : s.Upright) {ms : List Move}
    (hok : Session.performAll ms s = .ok s') : s.Ran ms s' := by
  -- What the first move drops counts as handed over to the end, unless a restart comes.
  induction ms generalizing s with
  | nil =>
    cases hok
    exact ⟨h, fun hd => hd.elim And.right False.elim, fun ha => .inl ⟨List.not_mem_nil, ha⟩⟩
  | cons m ms ih =>
    obtain ⟨⟨s₁, answer⟩, hperform, hok⟩ := exists_of_bind_eq_ok hok
    have hgoes := h.play (play_of_perform hperform)
    have hran := ih hgoes.upright hok
    refine ⟨hran.upright, fun {id} hd => hran.delivered ?_, fun {id} ha => ?_⟩
    · rcases hd with ⟨hm, hd⟩ | ⟨hdrops, hms⟩ | ⟨outcome, hperform', hdropped⟩
      · have hne := (List.ne_of_not_mem_cons hm).symm
        exact .inl ⟨List.not_mem_of_not_mem_cons hm, hgoes.delivered (.inl ⟨hne, hd⟩)⟩
      · exact .inl ⟨hms, hgoes.delivered (.inr hdrops)⟩
      · rw [hperform] at hperform'
        cases hperform'
        exact .inr hdropped
    · rcases hran.astray ha with ⟨hms, ha⟩ | hdropped
      · rcases hgoes.astray ha with ⟨hm, ha⟩ | hdrops
        · exact .inl ⟨List.not_mem_cons_of_ne_of_not_mem hm.symm hms, ha⟩
        · exact .inr (.inl ⟨hdrops, hms⟩)
      · refine .inr (.inr ⟨(s₁, answer), ?_, hdropped⟩)
        rw [hperform]
        rfl

/-- After a run from the beginning, those events are astray that are not indexed and were
dropped. -/
theorem Ran.astray_iff {ms : List Move} (h : s.Ran ms s') (hnone : ∀ id, ¬ s.Astray id)
    {id : EventId} :
    s'.Astray id ↔ s'.tracker.chronicle.get? id = none ∧ Dropped ms s id := by
  constructor
  · intro ha
    exact ⟨ha.2, (h.astray ha).resolve_left fun hold => hnone id hold.2⟩
  · rintro ⟨hget, hdropped⟩
    exact ⟨h.delivered (.inr hdropped), hget⟩

/-- A session over memory plays moves, however many are held, superseded or answered late.  Then
catching up in a joined room is never refused, and leaves nothing of the room incomplete and its
whole timeline indexed, but for the events that were not indexed because a late answer or a
forgotten room dropped them after the last restart. -/
theorem catching_up_misses_only_dropped {ambient : Ambient} {policy : Policy} {storage : Shelf}
    {s₀ : Session Shelf} {moves : List Move} {name : String}
    (hopen : (Session.openOver ambient policy storage).1 = .ok s₀)
    (hmoves : Session.performAll moves s₀ = .ok s) (hroom : s.roomOf name = .ok room) :
    ∃ s', s.play (.catchUp name) = .ok (s', .ok ()) ∧
      (s.tracker.ambient.hasDate = true → s.perform (.catchUp name) = .ok (s', .ok ())) ∧
      (s'.tracker.roomState room).incomplete = false ∧
      s'.server.timeline room = s.server.timeline room ∧
      ∀ m ∈ s.server.timeline room, s'.tracker.chronicle.get? m.id = none ↔
        s.tracker.chronicle.get? m.id = none ∧ Dropped moves s₀ m.id := by
  obtain ⟨hupright, hnone⟩ := upright_of_openOver hopen
  have hran := hupright.performAll hmoves
  obtain ⟨s', hcatch, hcaught⟩ := hran.upright.catchUp hroom
  have hplay : s.play (.catchUp name) = .ok (s', .ok ()) := by
    show always (s.catchUp name) = _
    rw [hcatch]
    rfl
  refine ⟨s', hplay, fun hdate => (perform_of_hasDate hdate _).trans hplay, hcaught.complete, ?_,
    fun m hm => (hcaught.indexed m hm).trans (hran.astray_iff hnone)⟩
  rw [Server.timeline, hcaught.timelines]
  rfl

/-- An answer comes late, but a second jump to the same message gets one in time.  Then a limited
batch leaves a gap.  Catching up brings in everything. -/
theorem catching_up_misses_nothing_after_second_jump :
    let room := Server.roomNamed "r"
    let moves : List Move := [.createRoom "r", .botSendsUnseen "r" [.plain "a"], .hold true,
      .jump "r" "a" true, .leave, .answerHeld, .jump "r" "a" true, .answerHeld, .leave,
      .botSendsUnseen "r" [.plain "b"], .botSendsAfterGap "r" [.plain "c"]]
    ∃ s₀ s s', (Session.openOver .counting {} Shelf.empty).1 = .ok s₀ ∧
      Session.performAll moves s₀ = .ok s ∧ s.roomOf "r" = .ok room ∧
      (s.tracker.roomState room).incomplete = true ∧
      s.perform (.catchUp "r") = .ok (s', .ok ()) ∧
      (s'.tracker.roomState room).incomplete = false ∧
      (s'.server.timeline room).length = 4 ∧
      ∀ m ∈ s'.server.timeline room, s'.tracker.chronicle.get? m.id ≠ none := by
  intro room moves
  let s₀ : Session Shelf := beginning .counting Shelf.empty
  have hopen : (Session.openOver .counting {} Shelf.empty).1 = .ok s₀ :=
    congrArg Prod.fst (openOver_empty _)
  have hrun : (do
      let s ← Session.performAll moves s₀
      return (s.roomOf "r", s.tracker.ambient.hasDate, (s.tracker.roomState room).incomplete,
        (s.server.timeline room).length, decide (∀ m ∈ s.server.timeline room,
          ¬ (s.tracker.chronicle.get? m.id = none ∧ Dropped moves s₀ m.id)))) =
      (.ok (.ok room, true, true, 4, true) : Except Halt _) := by decide +kernel
  obtain ⟨s, hmoves, hrun⟩ := exists_of_bind_eq_ok hrun
  simp only [pure, Except.pure, Except.ok.injEq, Prod.mk.injEq, decide_eq_true_eq] at hrun
  obtain ⟨hroom, hdate, hincomplete, hlength, hdropped⟩ := hrun
  obtain ⟨s', -, hperform, hcomplete, htimeline, hindexed⟩ :=
    catching_up_misses_only_dropped hopen hmoves hroom
  rw [← htimeline] at hindexed hlength hdropped
  exact ⟨s₀, s, s', hopen, hmoves, hroom, hincomplete, hperform hdate, hcomplete, hlength,
    fun m hm hnone => hdropped m hm ((hindexed m hm).1 hnone)⟩

/-- The user leaves before the answer to a jump comes.  It counts as handed over all the same, so
that catching up passes the message by. -/
theorem catching_up_misses_late_answer :
    let room := Server.roomNamed "r"
    let moves : List Move := [.createRoom "r", .botSendsUnseen "r" [.plain "a"], .hold true,
      .jump "r" "a" true, .leave, .answerHeld]
    ∃ s₀ s s', (Session.openOver .counting {} Shelf.empty).1 = .ok s₀ ∧
      Session.performAll moves s₀ = .ok s ∧ s.roomOf "r" = .ok room ∧
      s.perform (.catchUp "r") = .ok (s', .ok ()) ∧
      ∃ m ∈ s'.server.timeline room, s'.tracker.chronicle.get? m.id = none := by
  intro room moves
  let s₀ : Session Shelf := beginning .counting Shelf.empty
  have hrun : (do
      let s ← Session.performAll moves s₀
      let (s', answer) ← s.perform (.catchUp "r")
      return (s.roomOf "r", answer, decide (∃ m ∈ s'.server.timeline room,
        s'.tracker.chronicle.get? m.id = none))) =
      (.ok (.ok room, .ok (), true) : Except Halt _) := by decide +kernel
  obtain ⟨s, hmoves, hrun⟩ := exists_of_bind_eq_ok hrun
  obtain ⟨⟨s', answer⟩, hperform, hrun⟩ := exists_of_bind_eq_ok hrun
  simp only [pure, Except.pure, Except.ok.injEq, Prod.mk.injEq, decide_eq_true_eq] at hrun
  obtain ⟨hroom, rfl, hmissed⟩ := hrun
  exact ⟨s₀, s, s', congrArg Prod.fst (openOver_empty _), hmoves, hroom, hperform, hmissed⟩

end Session

end ReadTracking
