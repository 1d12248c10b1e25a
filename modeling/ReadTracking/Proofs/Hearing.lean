import Mathlib.Data.List.Chain
import Mathlib.Data.List.Nodup
import ReadTracking.Backing.Shelf
import ReadTracking.Proofs.Rooms

/-!
# Listeners hear of every change, and of nothing else

What was last told of a room is its read state, or nothing was told of it since it was last
forgotten and its state is the empty one.  As each command changes the one room that it tells of
at most, this is kept from moment to moment, and a state is told only where it is news.
-/

set_option autoImplicit false

namespace ReadTracking

def Answer.tells {σ : Type} (a : Answer σ) (listener : Nat) (room : RoomId) : List RoomState :=
  (a.notices.filter fun n => n.listener == listener && n.state.room == room).map (·.state)

theorem Listeners.tells_notices {l : Listeners} {listener : Nat} (h : listener ∈ l.active)
    (hn : l.active.Nodup) (state : RoomState) (room : RoomId) :
    ((l.notices state).filter fun n => n.listener == listener && n.state.room == room).map
      (·.state) = if state.room = room then [state] else [] := by
  unfold notices
  rw [List.filter_map, List.map_map]
  by_cases hr : state.room = room
  · have hone : l.active.filter (fun n => n == listener && state.room == room) = [listener] := by
      simp only [hr, beq_self_eq_true, Bool.and_true]
      rw [List.filter_beq, List.count_eq_one_of_mem hn h]
      rfl
    rw [if_pos hr]
    exact congrArg (List.map fun _ => state) hone
  · have hnone : l.active.filter (fun n => n == listener && state.room == room) = [] := by
      simp [hr]
    rw [if_neg hr]
    exact congrArg (List.map fun _ => state) hnone

namespace Tracker

variable {σ : Type} [Backing σ]

def told (listener : Nat) (room : RoomId) :
    List RoomState → Tracker σ → List Moment → List RoomState
  | heard, _, [] => heard
  | heard, t, m :: ms =>
    told listener room
      (if m = .command (.forget room) then [] else heard ++ (t.meet m).tells listener room)
      (t.meet m).tracker ms

structure Hears (listener : Nat) (room : RoomId) (heard : List RoomState) (t : Tracker σ) :
    Prop where
  listening : listener ∈ t.listeners.active
  once : t.listeners.active.Nodup
  numbered : ∀ n ∈ t.listeners.active, n < t.listeners.next
  reported : t.reported.get? room = heard.getLast?
  current : heard.getLast?.getD (.empty room) = t.roomState room
  changes : heard.IsChain (· ≠ ·)

namespace Hears

variable {listener : Nat} {room : RoomId} {heard : List RoomState} {t : Tracker σ}

omit [Backing σ] in
theorem listen (h : Hears listener room heard t) (listeners : Listeners) (ambient : Ambient)
    (hl : listener ∈ listeners.active) (hn : listeners.active.Nodup)
    (hlt : ∀ n ∈ listeners.active, n < listeners.next) :
    Hears listener room (heard ++ []) { t with listeners, ambient } := by
  rw [List.append_nil]
  exact ⟨hl, hn, hlt, h.reported, h.current, h.changes⟩

omit [Backing σ] in
theorem subscribe (h : Hears listener room heard t) :
    Hears listener room (heard ++ []) t.subscribe.1 := by
  refine h.listen t.listeners.subscribe.1 t.ambient ?_ ?_ ?_
  · exact List.mem_append_left _ h.listening
  · refine List.nodup_append.2 ⟨h.once, List.nodup_singleton _, ?_⟩
    rintro n hn _ hlast rfl
    rw [List.mem_singleton.1 hlast] at hn
    exact Nat.lt_irrefl _ (h.numbered _ hn)
  · intro n hn
    rcases List.mem_append.1 hn with hn | hn
    · exact Nat.lt_succ_of_lt (h.numbered n hn)
    · rw [List.mem_singleton.1 hn]
      exact Nat.lt_succ_self _

omit [Backing σ] in
theorem unsubscribe (h : Hears listener room heard t) {n : Nat} (hne : n ≠ listener) :
    Hears listener room (heard ++ []) (t.unsubscribe n).1 := by
  refine h.listen (t.listeners.unsubscribe n).1 t.ambient ?_ ?_ ?_
  · exact List.mem_filter.2 ⟨h.listening, bne_iff_ne.2 hne.symm⟩
  · exact h.once.filter _
  · exact fun n' hn' => h.numbered n' (List.mem_filter.1 hn').1

omit [Backing σ] in
theorem silent (h : Hears listener room heard t) {t' : Tracker σ}
    (hl : t'.listeners = t.listeners) (hr : t'.reported.get? room = t.reported.get? room)
    (hs : t'.roomState room = t.roomState room) : Hears listener room heard t' :=
  ⟨hl ▸ h.listening, hl ▸ h.once, hl ▸ h.numbered, hr.trans h.reported, h.current.trans hs.symm,
    h.changes⟩

omit [Backing σ] in
theorem news (h : Hears listener room heard t) {t' : Tracker σ}
    (hl : t'.listeners = t.listeners) (hr : t'.reported.get? room = some (t'.roomState room))
    (hne : t.reported.get? room ≠ some (t'.roomState room)) :
    Hears listener room (heard ++ [t'.roomState room]) t' := by
  refine ⟨hl ▸ h.listening, hl ▸ h.once, hl ▸ h.numbered, ?_, ?_, ?_⟩
  · rw [hr, List.getLast?_concat]
  · rw [List.getLast?_concat]
    rfl
  · refine List.isChain_append.2 ⟨h.changes, List.isChain_singleton _, ?_⟩
    intro s hs s' hs' hsame
    rw [← h.reported] at hs
    cases hs'
    exact hne (hsame ▸ hs)

theorem command (h : Hears listener room heard t) {home : EventId → RoomId}
    (ht : t.AtHome home) {c : Command} (hm : (Moment.command c).AtHome home)
    (hf : ∀ room, c ≠ .forget room) :
    Hears listener room (heard ++ (t.handle c).tells listener room) (t.handle c).tracker ∧
      ((t.handle c).tells listener room).length ≤ 1 := by
  obtain ⟨ws, place, hc⟩ := t.conducts c hf
  obtain ⟨chronicle, hload⟩ := t.loaded_with c
  have hg := hc.grants
  rw [hload] at hg
  have hl : (t.handle c).tracker.listeners = t.listeners := hg.listeners
  have hother : place ≠ some room → (t.handle c).tracker.roomState room = t.roomState room :=
    ht.roomState_handle hm hc
  have hsilent : (t.handle c).notices = [] → (t.handle c).tells listener room = [] := by
    intro hn
    rw [Answer.tells, hn]
    rfl
  cases hg.reports with
  | nothing reported notices =>
    rw [hsilent notices, List.append_nil]
    exact ⟨h.silent hl (by rw [reported]) (hother (Option.some_ne_none room).symm),
      Nat.zero_le 1⟩
  | known room' same reported notices =>
    rw [hsilent notices, List.append_nil]
    refine ⟨h.silent hl (by rw [reported]) ?_, Nat.zero_le 1⟩
    by_cases e : room' = room
    · subst e
      have hlast : heard.getLast? = some ((t.handle c).tracker.roomState room') :=
        h.reported.symm.trans same
      have hcurrent := h.current
      rw [hlast] at hcurrent
      exact hcurrent
    · exact hother fun e' => e (Option.some.inj e')
  | news room' changed reported notices =>
    have htells : (t.handle c).tells listener room =
        if room' = room then [(t.handle c).tracker.roomState room'] else [] := by
      rw [Answer.tells, notices]
      exact Listeners.tells_notices h.listening h.once _ room
    by_cases e : room' = room
    · subst e
      rw [htells, if_pos rfl]
      exact ⟨h.news hl (by rw [reported, Table.get?_insert_self]) changed, Nat.le_refl 1⟩
    · have hne : room ≠ room' := fun e' => e e'.symm
      rw [htells, if_neg e, List.append_nil]
      refine ⟨h.silent hl ?_ (hother fun e' => e (Option.some.inj e')), Nat.zero_le 1⟩
      rw [reported, Table.get?_insert_of_ne _ _ hne]

theorem forget (h : Hears listener room heard t) {home : EventId → RoomId}
    (ht : t.AtHome home) {room' : RoomId} (hs : ¬ (t.forget room').StorageFailed) :
    Hears listener room (if room' = room then [] else heard) (t.forget room').tracker := by
  have hlisteners : (t.forget room').tracker.listeners = t.listeners := by
    unfold Tracker.forget
    split <;> rfl
  have hreported : (t.forget room').tracker.reported = t.reported.erase room' := by
    unfold Tracker.forget at hs ⊢
    split at hs
    next why hb => exact absurd ⟨why, rfl⟩ hs
    next => rfl
  refine ⟨?_, ?_, ?_, ?_, ?_, ?_⟩
  · rw [hlisteners]
    exact h.listening
  · rw [hlisteners]
    exact h.once
  · rw [hlisteners]
    exact h.numbered
  · rw [hreported]
    split
    next e => rw [e, Table.get?_erase_self, List.getLast?_nil]
    next e => rw [Table.get?_erase_of_ne _ fun e' => e e'.symm, h.reported]
  · split
    next e =>
      subst e
      exact (AtHome.roomState_forget_self t room').symm
    next e =>
      rw [ht.roomState_forget fun e' => e e'.symm]
      exact h.current
  · split
    next => exact .nil
    next => exact h.changes

/-- The step: one moment of a course. -/
theorem meet (h : Hears listener room heard t) {home : EventId → RoomId} (ht : t.AtHome home)
    {m : Moment} (hm : m.AtHome home) (hs : ¬ (t.meet m).StorageFailed)
    (hstay : m ≠ .unsubscribe listener) :
    Hears listener room
        (if m = .command (.forget room) then [] else heard ++ (t.meet m).tells listener room)
        (t.meet m).tracker ∧
      ((t.meet m).tells listener room).length ≤ 1 := by
  cases m with
  | surroundings ambient =>
    rw [if_neg nofun]
    exact ⟨h.listen t.listeners ambient h.listening h.once h.numbered, Nat.zero_le 1⟩
  | subscribe =>
    rw [if_neg nofun]
    exact ⟨h.subscribe, Nat.zero_le 1⟩
  | unsubscribe n =>
    rw [if_neg nofun]
    exact ⟨h.unsubscribe fun e => hstay (e ▸ rfl), Nat.zero_le 1⟩
  | command c =>
    by_cases hc : ∃ room, c = .forget room
    · obtain ⟨room', rfl⟩ := hc
      have hsilent : (t.meet (.command (.forget room'))).tells listener room = [] := by
        show (t.forget room').tells listener room = []
        unfold Tracker.forget
        split <;> rfl
      have hkept := h.forget ht hs
      rw [hsilent, List.append_nil]
      refine ⟨?_, Nat.zero_le 1⟩
      by_cases e : room' = room
      · subst e
        rw [if_pos rfl] at hkept ⊢
        exact hkept
      · rw [if_neg e] at hkept
        rw [if_neg fun h => e (Command.forget.inj (Moment.command.inj h))]
        exact hkept
    · have hne : ∀ room, c ≠ .forget room := fun room e => hc ⟨room, e⟩
      rw [if_neg fun e => hne room (Moment.command.inj e)]
      exact h.command ht hm hne

/-- The run: a whole course. -/
theorem after (h : Hears listener room heard t) {home : EventId → RoomId} (ht : t.AtHome home)
    {ms : List Moment} (hms : ∀ m ∈ ms, m.AtHome home)
    (hs : ∀ a ∈ t.answers ms, ¬ a.StorageFailed) (hstay : .unsubscribe listener ∉ ms) :
    Hears listener room (told listener room heard t ms) (t.after ms) ∧
      ∀ a ∈ t.answers ms, (a.tells listener room).length ≤ 1 := by
  induction ms generalizing t heard with
  | nil => exact ⟨h, fun a ha => nomatch ha⟩
  | cons m ms ih =>
    have hm := hms m List.mem_cons_self
    obtain ⟨hstep, hone⟩ := h.meet ht hm (hs _ List.mem_cons_self)
      fun e => hstay (e ▸ List.mem_cons_self)
    obtain ⟨hrest, hall⟩ := ih hstep (ht.meet hm)
      (fun m' hm' => hms m' (List.mem_cons_of_mem _ hm'))
      (fun a ha => hs a (List.mem_cons_of_mem _ ha)) fun h => hstay (List.mem_cons_of_mem _ h)
    refine ⟨hrest, fun a ha => ?_⟩
    rcases List.mem_cons.1 ha with rfl | ha
    · exact hone
    · exact hall a ha

end Hears

/-- A listener that is subscribed from the start, while every room that is to be forgotten can be
and all names keep to their rooms, has last heard the read state of every room since the room was
last forgotten, or nothing and the state is the empty one.  No state is delivered twice in a row,
and no answer delivers two states of a room. -/
theorem listeners_hear_every_change {ambient : Ambient} {policy : Policy} {reader : UserId}
    {s : σ} {t : Tracker σ} (ht : (openOver ambient policy reader s).1 = .ok t)
    {home : EventId → RoomId} {ms : List Moment} (hms : ∀ m ∈ ms, m.AtHome home)
    (hs : ∀ a ∈ t.subscribe.1.answers ms, ¬ a.StorageFailed)
    (hstay : .unsubscribe t.subscribe.2 ∉ ms) (room : RoomId) :
    ((told t.subscribe.2 room [] t.subscribe.1 ms).getLast?.getD (.empty room) =
        (t.subscribe.1.after ms).roomState room) ∧
      (told t.subscribe.2 room [] t.subscribe.1 ms).IsChain (· ≠ ·) ∧
      ∀ a ∈ t.subscribe.1.answers ms, (a.tells t.subscribe.2 room).length ≤ 1 := by
  obtain ⟨book, rfl, -⟩ := eq_fresh_of_openOver ht
  let t₁ := (fresh ambient policy reader book).subscribe.1
  have hfirst : Hears (fresh ambient policy reader book).subscribe.2 room [] t₁ := by
    refine ⟨List.mem_singleton.2 rfl, List.nodup_singleton _, ?_, rfl, ?_, .nil⟩
    · intro n hn
      rw [List.mem_singleton.1 hn]
      exact Nat.lt_succ_self _
    · exact (Chronicle.roomState_of_log_empty rfl).symm
  have hhome : t₁.AtHome home :=
    ⟨Chronicle.sound_empty _, Chronicle.homed_empty _, fun _ h => nomatch h⟩
  obtain ⟨hlast, hone⟩ := hfirst.after hhome hms hs hstay
  exact ⟨hlast.current, hlast.changes, hone⟩

/-- Two rooms, one of which is forgotten after it was read: the listener has heard of it once more
since. -/
theorem listener_hears_of_two_rooms :
    let room : RoomId := ⟨"!r"⟩
    let other : RoomId := ⟨"!s"⟩
    let t : Tracker Shelf := fresh .counting {} ⟨"@me"⟩ ⟨.empty, .empty, .empty⟩
    let ms : List Moment :=
      [.command (.receive room [⟨⟨"$1"⟩, room, ⟨"@bot"⟩, 1, .plain, false⟩,
          ⟨⟨"$2"⟩, room, ⟨"@bot"⟩, 2, .threadReply ⟨"$1"⟩, false⟩] false),
        .command (.viewRoom room),
        .command (.receive other [⟨⟨"$x"⟩, other, ⟨"@bot"⟩, 3, .plain, false⟩] false),
        .command (.jump other ⟨"$x"⟩ true), .command (.forget room),
        .command (.receive room [⟨⟨"$1"⟩, room, ⟨"@bot"⟩, 1, .plain, false⟩] false)]
    let heard := told 0 room [] t.subscribe.1 ms
    heard.getLast?.getD (.empty room) = (t.subscribe.1.after ms).roomState room ∧
      heard.IsChain (· ≠ ·) ∧ (∀ a ∈ t.subscribe.1.answers ms, (a.tells 0 room).length ≤ 1) ∧
      heard.map (·.unread) = [1] ∧
      (told 0 other [] t.subscribe.1 ms).map (·.unread) = [1, 0] := by
  intro room other t ms heard
  have ht : (openOver .counting {} ⟨"@me"⟩ Shelf.empty).1 = .ok t := rfl
  let home (id : EventId) : RoomId := if id = ⟨"$x"⟩ then other else room
  have hms : ∀ m ∈ ms, m.AtHome home := by
    simp [ms, Moment.AtHome, Moment.messages, Command.messages, Message.AtHome, home,
      Content.relatesTo]
  obtain ⟨hlast, hchanges, hone⟩ := listeners_hear_every_change ht hms (by decide) (by decide) room
  exact ⟨hlast, hchanges, hone, by decide, by decide⟩

end Tracker

end ReadTracking
