import Mathlib.Data.List.Basic
import ReadTracking.Proofs.Conduct

/-!
# Rooms do not meddle

Where every name belongs to one room, and messages and jumps keep to the rooms of the names that
they use, a command changes the read state of one room at most, and that is the room that it
tells of.
-/

set_option autoImplicit false

namespace ReadTracking

def RoomState.empty (room : RoomId) : RoomState := ⟨room, 0, 0, [], 0, 0, false, false⟩

def Message.AtHome (home : EventId → RoomId) (m : Message) : Prop :=
  home m.id = m.room ∧ ∀ target, m.content.relatesTo = some target → home target = m.room

def Moment.AtHome (home : EventId → RoomId) (m : Moment) : Prop :=
  (∀ message ∈ m.messages, message.AtHome home) ∧
    ∀ room event includeThreads, m = .command (.jump room event includeThreads) →
      home event = room

variable {home : EventId → RoomId}

namespace Chronicle

structure Homed (home : EventId → RoomId) (c : Chronicle) : Prop where
  message : ∀ {id e}, c.get? id = some e → home id = e.message.room
  root : ∀ {id e root}, c.get? id = some e → e.scope.thread = some root →
    home root = e.message.room

variable {c c' : Chronicle}

theorem homed_empty (judge : Judge) : (empty judge).Homed home where
  message h := by cases h
  root h := by cases h

theorem Homed.mono (h : c.Homed home)
    (hsub : ∀ {id e}, c'.get? id = some e → c.get? id = some e) : c'.Homed home where
  message he := h.message (hsub he)
  root he := h.root (hsub he)

theorem Homed.thread_scopeFor (h : c.Homed home) {m : Message} (hm : m.AtHome home)
    {root : EventId} (hr : (c.scopeFor m).thread = some root) : home root = m.room := by
  have htarget := hm.2
  unfold scopeFor at hr
  cases hc : m.content with
  | plain | reply | state | other =>
    rw [hc] at hr
    cases hr
  | threadReply root' =>
    rw [hc] at hr htarget
    cases hr
    exact htarget root rfl
  | edit target | reaction target =>
    rw [hc] at hr
    dsimp only at hr
    cases he : c.get? target with
    | none =>
      rw [he] at hr
      cases hr
    | some e =>
      rw [he] at hr
      dsimp only at hr
      split at hr
      next hroom => exact (h.root he hr).trans hroom
      next => cases hr

theorem Homed.append (h : c.Homed home) {m : Message} (hm : m.AtHome home) :
    (c.append m).1.Homed home := by
  cases hid : c.get? m.id with
  | some e =>
    rw [append_of_contains c (Table.contains_iff.2 ⟨e, hid⟩)]
    exact h
  | none =>
    refine ⟨fun he => ?_, fun {id e root} he => ?_⟩
    · exact forall_append hid (P := fun id e => home id = e.message.room) hm.1
        (fun _ _ => h.message) he
    · exact forall_append hid
        (P := fun _ e => e.scope.thread = some root → home root = e.message.room)
        (h.thread_scopeFor hm) (fun _ _ => h.root) he

theorem Homed.take (h : c.Homed home) {b : Batch} (hb : ∀ m ∈ b.messages, m.AtHome home) :
    (c.take b).1.Homed home := by
  have hall : (c.appendAll b.room b.messages).1.Homed home :=
    appendAll_keeps (fun _ m hm _ hc => hc.append (hb m hm)) h
  exact hall.mono fun he => get?_take.symm.trans he

theorem Homed.forget (h : c.Homed home) (hc : c.Sound) (room : RoomId) :
    (c.forget room).1.Homed home := by
  refine h.mono fun {id e} he => ?_
  rw [hc.get?_forget, Option.filter_eq_some_iff] at he
  exact he.1

/-! ## The state of a room comes from the room -/

theorem threads_eq_log (c : Chronicle) (room : RoomId) : c.threads room =
    (Table.ofList ((c.log room).threads.entries.map
      fun e => ((c.anchor e.1 e.2, e.1), ()))).keys.map (·.2) := by
  unfold threads log
  cases c.rooms.get? room <;> rfl

theorem Homed.home_root (h : c.Homed home) (hc : c.Sound) {room : RoomId} {root : EventId}
    (ht : c.hasThread room root = true) : home root = room := by
  obtain ⟨id, e, he, hs⟩ := hc.hasThread_iff.1 ht
  rw [h.root he (by rw [hs]; rfl), ← hc.housed he, hs]
  rfl

section

variable {σ τ : Type} {b : MarkerBook σ} {b' : MarkerBook τ} {room : RoomId}

/-- The state of a room is decided by its log, the messages that belong to it and how far it is
read. -/
theorem Homed.roomState_congr (h : c.Homed home) (hc : c.Sound)
    (hlog : c'.log room = c.log room) (hget : ∀ id, home id = room → c'.get? id = c.get? id)
    (hread : ∀ s : Scope, s.room = room → b'.readTo s = b.readTo s) :
    roomState c' b' room = roomState c b room := by
  have hstrand : ∀ s : Scope, s.room = room → c'.strand s = c.strand s := by
    intro s hs
    simp only [strand, hs, hlog]
  have hevents : ∀ (s : Scope) (cursor : Option Cursor), s.room = room →
      c'.eventsAfter s cursor = c.eventsAfter s cursor := by
    intro s cursor hs
    rw [eventsAfter_eq, eventsAfter_eq, hstrand s hs]
    refine List.filterMap_congr fun id hid => hget id ?_
    obtain ⟨e, he, hscope, -⟩ := hc.mem_after.1 hid
    rw [h.message he, ← hc.housed he, hscope, hs]
  have hcount : ∀ s : Scope, s.room = room → countScope c' b' s = countScope c b s := by
    intro s hs
    simp only [countScope, hread s hs, hevents s _ hs, hasGapAfter_eq, hstrand s hs]
  have hthread : ∀ root, c'.hasThread room root = c.hasThread room root := by
    intro root
    rw [hasThread_eq, hasThread_eq, hlog]
  have hroot : ∀ root, c.hasThread room root = true → c'.get? root = c.get? root :=
    fun root ht => hget root (h.home_root hc ht)
  have hthreads : c'.threads room = c.threads room := by
    rw [threads_eq_log, threads_eq_log, hlog]
    congr 3
    refine List.map_congr_left fun e he => ?_
    have ht : c.hasThread room e.1 = true := by
      rw [hasThread_eq]
      exact Table.contains_iff.2 ⟨e.2, (Table.get?_eq_some_iff _).2 he⟩
    simp only [anchor, position?, hroot e.1 ht]
  have hstate : ∀ root ∈ c.threads room,
      threadState c' b' room root = threadState c b room root := by
    intro root hmem
    have hknown : c'.rootKnown room root = c.rootKnown room root := by
      simp only [rootKnown, hroot root (mem_threads.1 hmem)]
    simp only [threadState, hknown, hthread, hcount (.ofThread room root) rfl]
  simp only [roomState, hcount (.ofRoom room) rfl, hthreads, List.filterMap_congr hstate]

theorem roomState_of_log_empty (h : c.log room = .empty) :
    roomState c b room = .empty room := by
  have hmain : countScope c b (.ofRoom room) = {} := by
    have hstrand : c.strand (.ofRoom room) = .empty := by
      show (c.log room).strand none = .empty
      rw [h]
      rfl
    simp only [countScope, eventsAfter_eq, hasGapAfter_eq, hstrand]
    cases b.readTo (.ofRoom room) <;> rfl
  have hthreads : c.threads room = [] := by
    rw [threads_eq_log, h]
    rfl
  simp only [roomState, hmain, hthreads]
  rfl

end

end Chronicle

/-! ## Commands keep to their room -/

namespace Tracker

variable {σ : Type} {t : Tracker σ}

structure AtHome (home : EventId → RoomId) (t : Tracker σ) : Prop where
  sound : t.chronicle.Sound
  homed : t.chronicle.Homed home
  awaited : ∀ a, t.awaited = some a → home a.event = a.room

namespace AtHome

theorem target (h : t.AtHome home) {c : Command} (hm : (Moment.command c).AtHome home)
    {room : RoomId} {event : EventId} (ht : t.target? c = some (room, event)) :
    home event = room := by
  cases c with
  | jump room event includeThreads =>
    cases ht
    exact hm.2 room event includeThreads rfl
  | supply request messages =>
    obtain ⟨a, ha, he⟩ := Option.map_eq_some_iff.1 ht
    cases he
    exact h.awaited a (Option.filter_eq_some_iff.1 ha).1
  | markRoomRead | viewRoom | viewThread | closeThread | leave | receive | backfill | receipt
  | sendFailed | forget | tick => cases ht

theorem homed_loaded (h : t.AtHome home) {c : Command} (hm : (Moment.command c).AtHome home) :
    (t.loaded c).chronicle.Homed home := by
  cases hb : t.batch? c with
  | none =>
    rw [loaded_eq_self hb]
    exact h.homed
  | some b =>
    rw [loaded_eq hb]
    refine h.homed.take fun m hmem => hm.1 m ?_
    rw [messages_batch? hb] at hmem
    exact hmem

theorem straight (h : t.AtHome home) {c : Command} (hm : (Moment.command c).AtHome home) :
    t.Straight c := by
  intro room event e ht he
  rw [(sound_loaded h.sound c).housed he, ← (h.homed_loaded hm).message he]
  exact h.target hm ht

variable [Backing σ]

theorem handle (h : t.AtHome home) {c : Command} (hm : (Moment.command c).AtHome home)
    {ws : List Wish} {place : Option RoomId} (hc : t.Conduct c ws place) :
    (t.handle c).tracker.AtHome home where
  sound := hc.grants.chronicle ▸ sound_loaded h.sound c
  homed := hc.grants.chronicle ▸ h.homed_loaded hm
  awaited a ha := (hc.awaited a ha).elim (h.awaited a) (h.target hm)

theorem roomState_handle (h : t.AtHome home) {c : Command} (hm : (Moment.command c).AtHome home)
    {ws : List Wish} {place : Option RoomId} (hc : t.Conduct c ws place) {room : RoomId}
    (hne : place ≠ some room) : (t.handle c).tracker.roomState room = t.roomState room := by
  have hread : ∀ s : Scope, s.room = room →
      (t.handle c).tracker.book.readTo s = (t.loaded c).book.readTo s := by
    intro s hs
    refine MarkerBook.readTo_congr_mark fun v => ?_
    unfold MarkerBook.mark?
    rw [hc.grants.marks]
    refine Wish.get?_grantAll_of_ne fun w hw e => hne ?_
    rw [hc.near h.sound (h.straight hm) w hw, ← hs]
    exact congrArg (fun slot : Slot => some slot.scope.room) e
  unfold roomState
  rw [hc.grants.chronicle]
  cases hb : t.batch? c with
  | none =>
    rw [loaded_eq_self hb] at hread ⊢
    exact h.homed.roomState_congr h.sound rfl (fun _ _ => rfl) hread
  | some b =>
    rw [loaded_eq hb] at hread ⊢
    have hroom : room ≠ b.room := fun e => hne (e ▸ hc.brought b hb)
    refine h.homed.roomState_congr h.sound (Chronicle.log_take_of_ne hroom) (fun id hid => ?_)
      hread
    cases hold : t.chronicle.get? id with
    | some e => exact Chronicle.get?_take_of_some hold
    | none =>
      cases hnew : (t.chronicle.take b).1.get? id with
      | none => rfl
      | some e =>
        -- A new message of this name belongs to the room of the batch, and its name does not.
        rcases Chronicle.of_get?_take hnew with he | ⟨-, -, hr⟩
        · exact he.symm.trans hold
        · have hhomed := h.homed_loaded hm
          rw [loaded_eq hb] at hhomed
          exact absurd (hid.symm.trans ((hhomed.message hnew).trans hr)) hroom

/-- Forgetting a room changes no other room, even where the storage fails. -/
theorem roomState_forget (h : t.AtHome home) {room room' : RoomId} (hne : room' ≠ room) :
    (t.forget room).tracker.roomState room' = t.roomState room' := by
  have hmarks : (t.forget room).tracker.book.marks =
      t.book.marks.filter fun slot _ => slot.scope.room != room := by
    unfold forget
    split
    next hb => exact (congrArg (·.1.marks) hb).symm
    next hb => exact (congrArg (·.1.marks) hb).symm
  have hread : ∀ s : Scope, s.room = room' →
      (t.forget room).tracker.book.readTo s = t.book.readTo s := by
    intro s hs
    refine MarkerBook.readTo_congr_mark fun v => ?_
    unfold MarkerBook.mark?
    rw [hmarks, Table.get?_filter]
    have hkeep : (s.room != room) = true := bne_iff_ne.2 (hs ▸ hne)
    cases t.book.marks.get? ⟨s, v⟩ with
    | none => rfl
    | some m => simp only [Option.filter_some, hkeep, if_true]
  unfold roomState
  rw [chronicle_forget]
  refine h.homed.roomState_congr h.sound ?_ (fun id hid => ?_) hread
  · rw [Chronicle.log_forget, if_neg hne]
  · rw [h.sound.get?_forget]
    cases he : t.chronicle.get? id with
    | none => rfl
    | some e =>
      have hkeep : (e.message.room != room) = true :=
        bne_iff_ne.2 ((h.homed.message he).symm.trans hid ▸ hne)
      simp only [Option.filter_some, hkeep, if_true]

theorem roomState_forget_self (t : Tracker σ) (room : RoomId) :
    (t.forget room).tracker.roomState room = .empty room := by
  unfold roomState
  rw [chronicle_forget]
  refine Chronicle.roomState_of_log_empty ?_
  rw [Chronicle.log_forget, if_pos rfl]

theorem forget (h : t.AtHome home) (room : RoomId) : (t.forget room).tracker.AtHome home where
  sound := by
    rw [chronicle_forget]
    exact h.sound.forget room
  homed := by
    rw [chronicle_forget]
    exact h.homed.forget h.sound room
  awaited a ha := by
    refine h.awaited a ?_
    unfold Tracker.forget at ha
    split at ha
    next => exact ha
    next => exact (Option.filter_eq_some_iff.1 ha).1

theorem meet (h : t.AtHome home) {m : Moment} (hm : m.AtHome home) :
    (t.meet m).tracker.AtHome home := by
  cases m with
  | surroundings | subscribe | unsubscribe => exact ⟨h.sound, h.homed, h.awaited⟩
  | command c =>
    rcases t.forget_or_conducts c with ⟨room, rfl⟩ | ⟨ws, place, hconduct⟩
    · exact h.forget room
    · exact h.handle hm hconduct

theorem after (h : t.AtHome home) {ms : List Moment} (hms : ∀ m ∈ ms, m.AtHome home) :
    (t.after ms).AtHome home :=
  after_keeps h fun m hm _ hu => hu.meet (hms m hm)

end AtHome

theorem atHome_fresh (ambient : Ambient) (policy : Policy) (reader : UserId)
    (book : MarkerBook σ) : (fresh ambient policy reader book).AtHome home where
  sound := Chronicle.sound_empty _
  homed := Chronicle.homed_empty _
  awaited a ha := by cases ha

end Tracker

end ReadTracking
