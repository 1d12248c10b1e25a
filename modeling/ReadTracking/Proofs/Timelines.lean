import ReadTracking.Proofs.Worlds
import ReadTracking.Server

/-!
# Timelines of the server

The server numbers events through all rooms and names them by their numbers, so no two events have
one name.  A timeline grows at its end only.  A text is looked up among what was sent to the room,
so an event that relates to another one comes after it in the same timeline.  All of that holds
after any calls, whether they go through or stop halfway.
-/

set_option autoImplicit false

namespace ReadTracking.Server

open Reference

structure Sound (s : Server) : Prop where
  housed : ∀ {room m}, m ∈ s.timeline room → m.room = room
  named : ∀ {room m}, m ∈ s.timeline room → m.id = eventNumbered m.sequence
  numbered : ∀ {room m}, m ∈ s.timeline room → m.sequence < s.nextSequence
  rising : ∀ room, (s.timeline room).Pairwise fun m m' => m.sequence < m'.sequence
  apart : ∀ {room room' m m'}, m ∈ s.timeline room → m' ∈ s.timeline room' →
    m.sequence = m'.sequence → m = m'
  found : ∀ {room body id}, s.bodies.get? (room, body) = some id →
    ∃ m ∈ s.timeline room, m.id = id
  related : ∀ {room m id}, m ∈ s.timeline room → m.content.relatesTo = some id →
    ∃ m' ∈ s.timeline room, m'.id = id ∧ m'.sequence < m.sequence

variable {s s' : Server} {room : RoomId} {m m' : Message}

theorem sound_start : ({} : Server).Sound where
  housed h := nomatch h
  named h := nomatch h
  numbered h := nomatch h
  rising _ := .nil
  apart h := nomatch h
  found h := nomatch h
  related h := nomatch h

namespace Sound

theorem eq_of_id (hs : s.Sound) {room' : RoomId} (hm : m ∈ s.timeline room)
    (hm' : m' ∈ s.timeline room') (h : m.id = m'.id) : m = m' := by
  rw [hs.named hm, hs.named hm'] at h
  exact hs.apart hm hm' (eventNumbered_injective h)

theorem congr (hs : s.Sound) (htimeline : ∀ room, s'.timeline room = s.timeline room)
    (hbodies : s'.bodies = s.bodies) (hnext : s.nextSequence ≤ s'.nextSequence) : s'.Sound where
  housed h := hs.housed (htimeline _ ▸ h)
  named h := hs.named (htimeline _ ▸ h)
  numbered h := Nat.lt_of_lt_of_le (hs.numbered (htimeline _ ▸ h)) hnext
  rising room := htimeline room ▸ hs.rising room
  apart h h' := hs.apart (htimeline _ ▸ h) (htimeline _ ▸ h')
  found h := by
    rw [htimeline]
    exact hs.found (hbodies ▸ h)
  related h hr := by
    rw [htimeline]
    exact hs.related (htimeline _ ▸ h) hr

theorem of_resolve (hs : s.Sound) {body : String} {id : EventId}
    (h : s.resolve room body = .ok id) : ∃ m ∈ s.timeline room, m.id = id := by
  unfold resolve at h
  split at h
  next hb => exact hs.found (Except.ok.inj h ▸ hb)
  next => cases h

theorem of_contentOf (hs : s.Sound) {d : Draft} {content : Content}
    (h : s.contentOf room d = .ok content) {id : EventId} (hid : content.relatesTo = some id) :
    ∃ m ∈ s.timeline room, m.id = id := by
  -- A content that relates to something was made by looking a text up.
  have hresolve : ∀ {body : String} {make : EventId → Content},
      (s.resolve room body).map make = .ok content → (∀ id, (make id).relatesTo = some id) →
        ∃ m ∈ s.timeline room, m.id = id := by
    intro body make hmade hmake
    cases hr : s.resolve room body with
    | error why =>
      rw [hr] at hmade
      cases hmade
    | ok found =>
      rw [hr] at hmade
      cases hmade
      rw [hmake] at hid
      exact hs.of_resolve (Option.some.inj hid ▸ hr)
  cases d with
  | plain _ =>
    cases h
    cases hid
  | state _ =>
    cases h
    cases hid
  | threadReply root _ => exact hresolve h fun _ => rfl
  | reply target _ => exact hresolve h fun _ => rfl
  | edit target _ => exact hresolve h fun _ => rfl
  | reaction target key => exact hresolve h fun _ => rfl

end Sound

/-! ## What calls leave -/

theorem timeline_post (s : Server) (m : Message) (body : Option String) (room : RoomId) :
    (s.post m body).timeline room =
      if room = m.room then s.timeline room ++ [m] else s.timeline room := by
  unfold timeline post
  rw [Table.get?_insert]
  split
  next e =>
    rw [e]
    rfl
  next => rfl

theorem mem_timeline_post {body : Option String} {room : RoomId} :
    m' ∈ (s.post m body).timeline room ↔ m' ∈ s.timeline room ∨ m' = m ∧ room = m.room := by
  rw [timeline_post]
  split
  next e => simp [e]
  next e => simp [e]

theorem of_get?_bodies_post {body : Option String} {room : RoomId} {text : String} {id : EventId}
    (h : (s.post m body).bodies.get? (room, text) = some id) :
    s.bodies.get? (room, text) = some id ∨ room = m.room ∧ id = m.id := by
  cases body with
  | none => exact .inl h
  | some b =>
    have h : (s.bodies.insert (m.room, b) m.id).get? (room, text) = some id := h
    rw [Table.get?_insert] at h
    split at h
    next e => exact .inr ⟨congrArg Prod.fst e, (Option.some.inj h).symm⟩
    next => exact .inl h

theorem timeline_createRoom (s : Server) (name : String) (room : RoomId) :
    (s.createRoom name).1.timeline room = s.timeline room := by
  simp only [createRoom]
  split
  next => rfl
  next hnone =>
    have hnone : s.timelines.get? (roomNamed name) = none :=
      Table.contains_eq_false_iff.1 (Bool.eq_false_iff.2 hnone)
    simp only [timeline, Table.get?_insert]
    split
    next e => rw [e, hnone]; rfl
    next => rfl

theorem fields_takeReceipt (s : Server) (user : UserId) (slot : Slot) (event : EventId) :
    (s.takeReceipt user slot event).1.timelines = s.timelines ∧
      (s.takeReceipt user slot event).1.bodies = s.bodies ∧
      (s.takeReceipt user slot event).1.nextSequence = s.nextSequence := by
  simp only [takeReceipt]
  split
  · exact ⟨rfl, rfl, rfl⟩
  · split
    · exact ⟨rfl, rfl, rfl⟩
    · split <;> split <;> exact ⟨rfl, rfl, rfl⟩

namespace Sound

theorem post (hs : s.Sound) (body : Option String) (hid : m.id = eventNumbered s.nextSequence)
    (hsequence : m.sequence = s.nextSequence)
    (hrelated : ∀ {id}, m.content.relatesTo = some id → ∃ m' ∈ s.timeline m.room, m'.id = id) :
    (({ s with nextSequence := s.nextSequence + 1 } : Server).post m body).Sound := by
  have hmem : ∀ {room m'},
      m' ∈ (({ s with nextSequence := s.nextSequence + 1 } : Server).post m body).timeline room ↔
        m' ∈ s.timeline room ∨ m' = m ∧ room = m.room := mem_timeline_post
  -- Whatever stands in a timeline already has a smaller number.
  have hless : ∀ {room m'}, m' ∈ s.timeline room → m'.sequence < m.sequence := fun h =>
    hsequence ▸ hs.numbered h
  constructor
  case housed =>
    intro room m' h
    rcases hmem.1 h with h | ⟨rfl, rfl⟩
    · exact hs.housed h
    · rfl
  case named =>
    intro room m' h
    rcases hmem.1 h with h | ⟨rfl, -⟩
    · exact hs.named h
    · rw [hid, hsequence]
  case numbered =>
    intro room m' h
    show m'.sequence < s.nextSequence + 1
    rcases hmem.1 h with h | ⟨rfl, -⟩
    · exact Nat.lt_succ_of_lt (hs.numbered h)
    · exact hsequence ▸ Nat.lt_succ_self _
  case rising =>
    intro room
    rw [timeline_post]
    split
    next =>
      refine List.pairwise_append.2 ⟨hs.rising room, List.pairwise_singleton _ _, ?_⟩
      rintro m' hm' _ hm
      exact List.mem_singleton.1 hm ▸ hless hm'
    next => exact hs.rising room
  case apart =>
    intro room room' m₁ m₂ h₁ h₂ heq
    rcases hmem.1 h₁ with k₁ | ⟨rfl, -⟩ <;> rcases hmem.1 h₂ with k₂ | ⟨rfl, -⟩
    · exact hs.apart k₁ k₂ heq
    · exact absurd heq (Nat.ne_of_lt (hless k₁))
    · exact absurd heq.symm (Nat.ne_of_lt (hless k₂))
    · rfl
  case found =>
    intro room text id h
    rcases of_get?_bodies_post h with h | ⟨rfl, rfl⟩
    · obtain ⟨m', hm', hid'⟩ := hs.found h
      exact ⟨m', hmem.2 (.inl hm'), hid'⟩
    · exact ⟨m, hmem.2 (.inr ⟨rfl, rfl⟩), rfl⟩
  case related =>
    intro room m' id h hr
    rcases hmem.1 h with h | ⟨rfl, rfl⟩
    · obtain ⟨target, ht, hlt⟩ := hs.related h hr
      exact ⟨target, hmem.2 (.inl ht), hlt⟩
    · obtain ⟨target, ht, hid'⟩ := hrelated hr
      exact ⟨target, hmem.2 (.inl ht), hid', hless ht⟩

theorem createRoom (hs : s.Sound) (name : String) : (s.createRoom name).1.Sound := by
  refine hs.congr (s.timeline_createRoom name) ?_ ?_
  · simp only [Server.createRoom]
    split <;> rfl
  · simp only [Server.createRoom]
    split <;> exact Nat.le_refl _

theorem takeReceipt (hs : s.Sound) (user : UserId) (slot : Slot) (event : EventId) :
    (s.takeReceipt user slot event).1.Sound := by
  obtain ⟨htimelines, hbodies, hnext⟩ := s.fields_takeReceipt user slot event
  refine hs.congr (fun room => ?_) hbodies (Nat.le_of_eq hnext.symm)
  unfold timeline
  rw [htimelines]

/-- However far the sending comes, the order is kept. -/
theorem sendAll (hs : s.Sound) (room : RoomId) (sender : UserId) (ds : List Draft) :
    (Server.sendAll room sender ds s).1.Sound := by
  induction ds generalizing s with
  | nil => exact hs
  | cons d ds ih =>
    have hskip : ({ s with nextSequence := s.nextSequence + 1 } : Server).Sound :=
      hs.congr (fun _ => rfl) rfl (Nat.le_succ _)
    simp only [Server.sendAll]
    cases hc : ({ s with nextSequence := s.nextSequence + 1 } : Server).contentOf room d with
    | error why => exact hskip
    | ok content => exact ih (hs.post d.body? rfl rfl (hskip.of_contentOf hc))

theorem send (hs : s.Sound) (room : RoomId) (sender : UserId) (ds : List Draft) :
    (s.send room sender ds).1.Sound := by
  unfold Server.send
  split
  · exact hs.sendAll room sender ds
  · exact hs

end Sound

end ReadTracking.Server
