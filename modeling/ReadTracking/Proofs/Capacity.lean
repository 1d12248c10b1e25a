import ReadTracking.Proofs.Chronicles
import ReadTracking.Proofs.Course
import ReadTracking.Proofs.Turns

/-!
# What a storage has to hold

A storage may have limits: names that are too long, or numbers that are too great.  Whatever a
tracker wants to store is made of what was delivered to it.  So if all messages of a course keep
within limits, then so does everything that is indexed, and every update that is made from it.
-/

set_option autoImplicit false

namespace ReadTracking

structure Capacity where
  room : RoomId → Prop
  event : EventId → Prop
  number : Nat → Prop

namespace Capacity

def unlimited : Capacity := ⟨fun _ => True, fun _ => True, fun _ => True⟩

variable (K : Capacity)

def scope (s : Scope) : Prop := K.room s.room ∧ ∀ root, s.thread = some root → K.event root

def update (u : Update) : Prop := K.scope u.scope ∧ K.event u.event ∧ K.number u.sequence

theorem scope_ofRoom {room : RoomId} (h : K.room room) : K.scope (.ofRoom room) :=
  ⟨h, fun _ e => by cases e⟩

end Capacity

theorem Ambient.wallClock_lt (a : Ambient) : a.wallClock < Sum64.bound :=
  Nat.mod_lt _ (by decide)

def Message.Within (K : Capacity) (m : Message) : Prop :=
  K.room m.room ∧ K.event m.id ∧ K.number m.sequence ∧
    ∀ root, m.content = .threadReply root → K.event root

def Command.messages : Command → List Message
  | .supply _ messages | .receive _ messages _ | .backfill _ messages _ => messages
  | .markRoomRead _ | .viewRoom _ | .viewThread _ _ | .closeThread | .leave | .jump _ _ _
  | .receipt _ _ _ _ _ | .sendFailed _ _ _ | .forget _ | .tick _ => []

def Moment.messages : Moment → List Message
  | .command c => c.messages
  | .surroundings _ | .subscribe | .unsubscribe _ => []

def Moment.Within (K : Capacity) (m : Moment) : Prop := ∀ message ∈ m.messages, message.Within K

theorem Moment.within_unlimited (m : Moment) : m.Within .unlimited :=
  fun _ _ => ⟨trivial, trivial, trivial, fun _ _ => trivial⟩

def Moment.ForgetsWithin (K : Capacity) (m : Moment) : Prop :=
  ∀ room, m = .command (.forget room) → K.room room

theorem Moment.forgetsWithin_unlimited (m : Moment) : m.ForgetsWithin .unlimited :=
  fun _ _ => trivial

namespace Chronicle

structure Within (K : Capacity) (c : Chronicle) : Prop where
  sound : c.Sound
  room : ∀ {id e}, c.get? id = some e → K.room e.message.room
  scope : ∀ {id e}, c.get? id = some e → K.scope e.scope
  event : ∀ {id e}, c.get? id = some e → K.event id
  number : ∀ {id e}, c.get? id = some e → K.number e.position.sequence
  gap : ∀ {s g}, (c.strand s).gaps.contains g = true → K.number g

variable {K : Capacity} {c : Chronicle}

theorem within_empty (K : Capacity) (judge : Judge) : (empty judge).Within K where
  sound := sound_empty judge
  room h := by cases h
  scope h := by cases h
  event h := by cases h
  number h := by cases h
  gap {s g} h := by
    obtain ⟨room, thread⟩ := s
    cases thread <;> cases h

theorem Within.scopeFor (h : c.Within K) {m : Message} (hm : m.Within K) :
    K.scope (c.scopeFor m) := by
  have hroom := K.scope_ofRoom hm.1
  have hroot := hm.2.2.2
  unfold Chronicle.scopeFor
  cases hc : m.content with
  | plain | reply | state | other => exact hroom
  | threadReply root =>
    refine ⟨hm.1, fun root' e => ?_⟩
    cases e
    exact hroot root hc
  | edit target | reaction target =>
    dsimp only
    cases he : c.get? target with
    | none => exact hroom
    | some e =>
      dsimp only
      split
      next => exact h.scope he
      next => exact hroom

theorem gaps_append (hc : c.Sound) {m : Message} {s : Scope} :
    ((c.append m).1.strand s).gaps = (c.strand s).gaps := by
  cases h : c.get? m.id with
  | some e => rw [append_of_contains c (Table.contains_iff.2 ⟨e, h⟩)]
  | none =>
    rw [strand_append h (hc.scopeFor_room m)]
    split <;> rfl

theorem Within.append (h : c.Within K) {m : Message} (hm : m.Within K) :
    (c.append m).1.Within K := by
  have hgap : ∀ {s g}, ((c.append m).1.strand s).gaps.contains g = true → K.number g := by
    intro s g hg
    rw [gaps_append h.sound] at hg
    exact h.gap hg
  cases hid : c.get? m.id with
  | some e =>
    rw [append_of_contains c (Table.contains_iff.2 ⟨e, hid⟩)]
    exact h
  | none =>
    exact {
      sound := h.sound.append m
      room := forall_append hid (P := fun _ e => K.room e.message.room) hm.1 fun _ _ => h.room
      scope := forall_append hid (P := fun _ e => K.scope e.scope) (h.scopeFor hm)
        fun _ _ => h.scope
      event := forall_append hid (P := fun id _ => K.event id) hm.2.1 fun _ _ => h.event
      number := forall_append hid (P := fun _ e => K.number e.position.sequence) hm.2.2.1
        fun _ _ => h.number
      gap := hgap }

theorem Within.openGap (h : c.Within K) (room : RoomId) (roots : List EventId) {q : Nat}
    (hq : K.number q) : (c.openGap room roots q).Within K where
  sound := h.sound.openGap room roots q
  room he := h.room he
  scope he := h.scope he
  event he := h.event he
  number he := h.number he
  gap {s g} hg := by
    simp only [strand, log_openGap] at hg
    split at hg
    next e =>
      rcases RoomLog.contains_gaps_openGap _ _ hg with rfl | hg
      · exact hq
      · rw [← e] at hg
        exact h.gap hg
    next => exact h.gap hg

theorem Within.closeGap (h : c.Within K) (room : RoomId) (q : Nat) :
    (c.closeGap room q).1.Within K where
  sound := h.sound.closeGap room q
  room he := h.room (get?_closeGap room q _ ▸ he)
  scope he := h.scope (get?_closeGap room q _ ▸ he)
  event he := h.event (get?_closeGap room q _ ▸ he)
  number he := h.number (get?_closeGap room q _ ▸ he)
  gap {s g} hg := by
    simp only [strand, log_closeGap] at hg
    split at hg
    next e =>
      have hg := RoomLog.contains_gaps_closeGap _ _ hg
      rw [← e] at hg
      exact h.gap hg
    next => exact h.gap hg

theorem Within.ingest (h : c.Within K) (room : RoomId) {batch : List Message}
    (hb : ∀ m ∈ batch, m.Within K) (limited : Bool) :
    (c.ingest room batch limited).1.Within K := by
  have hall : (c.appendAll room batch).1.Within K :=
    appendAll_keeps (P := fun c => c.Within K) (fun _ m hm _ hc => hc.append (hb m hm)) h
  obtain ⟨-, he | ⟨roots, p, hp, he⟩⟩ := c.ingest_cases room batch limited
  · rw [he]
    exact hall
  · rw [he]
    obtain ⟨e, hget, -, hpos⟩ := has_appendAll p hp
    exact hall.openGap room roots (hpos ▸ hall.number hget)

theorem Within.forget (h : c.Within K) (room : RoomId) : (c.forget room).1.Within K := by
  have old : ∀ {id e}, (c.forget room).1.get? id = some e → c.get? id = some e := by
    intro id e he
    rw [h.sound.get?_forget, Option.filter_eq_some_iff] at he
    exact he.1
  exact {
    sound := h.sound.forget room
    room := fun he => h.room (old he)
    scope := fun he => h.scope (old he)
    event := fun he => h.event (old he)
    number := fun he => h.number (old he)
    gap := by
      intro s g hg
      rw [strand_forget] at hg
      split at hg
      · cases hg
      · exact h.gap hg }

/-! ## Updates that are made from the chronicle -/

theorem Within.update (h : c.Within K) {id : EventId} {e : Indexed} (he : c.get? id = some e) :
    K.update ⟨e.scope, id, e.position.sequence⟩ :=
  ⟨h.scope he, h.event he, h.number he⟩

theorem Within.update_message (h : c.Within K) {id : EventId} {e : Indexed}
    (he : c.get? id = some e) : K.update ⟨e.scope, e.message.id, e.position.sequence⟩ := by
  rw [h.sound.named he]
  exact h.update he

theorem Within.update_of_has (h : c.Within K) {p : Placed} (hp : c.Has p) :
    K.update ⟨p.scope, p.id, p.position.sequence⟩ := by
  obtain ⟨e, he, hs, hpos⟩ := hp
  rw [← hs, ← hpos]
  exact h.update he

theorem Within.update_root (h : c.Within K) {room : RoomId} {root : EventId} {p : Position}
    (hk : c.rootKnown room root = true) (hp : c.position? root = some p) :
    K.update ⟨.ofRoom room, root, p.sequence⟩ := by
  unfold rootKnown at hk
  simp only [position?, Option.map_eq_some_iff] at hp
  obtain ⟨e, he, rfl⟩ := hp
  simp only [he, beq_iff_eq] at hk
  exact ⟨K.scope_ofRoom (hk ▸ h.room he), h.event he, h.number he⟩

theorem Within.horizon (h : c.Within K) {s : Scope} {u : Update}
    (hu : Turn.horizon c s = some u) : K.update u := by
  simp only [Turn.horizon, Option.map_eq_some_iff] at hu
  obtain ⟨e, he, rfl⟩ := hu
  obtain ⟨hget, hs, -⟩ := h.sound.latest_eq_some he
  refine ⟨hs ▸ h.scope hget, h.event hget, ?_⟩
  cases hg : c.lastGap s with
  | none => exact h.number hget
  | some gap =>
    have hgap : K.number gap := by
      rw [lastGap_eq] at hg
      simp only [Strand.lastGap, Option.map_eq_some_iff] at hg
      obtain ⟨⟨g, v⟩, hlast, rfl⟩ := hg
      exact h.gap (Table.contains_iff.2 ⟨v, (Table.last?_eq_some_iff.1 hlast).1⟩)
    dsimp only
    rcases Nat.le_total gap e.position.sequence with hle | hle
    · rw [Nat.max_eq_right hle]
      exact h.number hget
    · rw [Nat.max_eq_left hle]
      exact hgap

theorem Within.floors (h : c.Within K) (room : RoomId) (q : Nat) :
    ∀ u ∈ Turn.floors c room q, K.update u := by
  intro u hu
  simp only [Turn.floors, List.mem_filterMap, Option.map_eq_some_iff] at hu
  obtain ⟨s, -, e, he, rfl⟩ := hu
  obtain ⟨hget, hs, -⟩ := h.sound.floor_eq_some he
  have := h.update hget
  rwa [hs] at this

end Chronicle

end ReadTracking
