import ReadTracking.Proofs.Relations

/-!
# A sending that stops halfway

Drafts are sent one by one.  A draft that relates to a text needs an event of that text: one that
was there before, or one that an earlier draft of the same call has become.  The first draft that
finds none stops the sending.  What was sent before it stays: it stands in the timeline and its
texts are found, although no message is returned.  So a sending that is turned down stores nothing
only if its first draft is at fault, or if the room is unknown.
-/

set_option autoImplicit false

namespace ReadTracking

def Draft.target? : Draft → Option String
  | .threadReply text _ | .reply text _ | .edit text _ | .reaction text _ => some text
  | .plain _ | .state _ => none

namespace Server

def Finds (s : Server) (room : RoomId) (sent : List Draft) (text : String) : Prop :=
  s.bodies.contains (room, text) = true ∨ ∃ d ∈ sent, d.body? = some text

def Sendable (s : Server) (room : RoomId) (ds : List Draft) : Prop :=
  ∀ before d after text, ds = before ++ d :: after → d.target? = some text →
    s.Finds room before text

def textsOf (room : RoomId) (ds : List Draft) (ms : List Message) :
    List ((RoomId × String) × EventId) :=
  (ds.zip ms).filterMap fun p => p.1.body?.map fun text => ((room, text), p.2.id)

def extended (s : Server) (room : RoomId) (ds : List Draft) (ms : List Message) : Server :=
  { s with
    timelines := s.timelines.insert room (s.timeline room ++ ms)
    bodies := s.bodies.insertAll (textsOf room ds ms)
    nextSequence := s.nextSequence + ds.length }

/-- Drafts were sent: each became one message, with the next number, at the end of the timeline. -/
structure Writes (s : Server) (room : RoomId) (sender : UserId) (ds : List Draft)
    (ms : List Message) (s' : Server) : Prop where
  state : s' = s.extended room ds ms
  numbers : ms.map (·.sequence) = List.range' s.nextSequence ds.length
  made : ∀ m ∈ ms, m.id = eventNumbered m.sequence ∧ m.room = room ∧ m.sender = sender ∧
    m.highlight = false
  content : ∀ before d after, ds = before ++ d :: after → ∃ m, ms[before.length]? = some m ∧
    (s.extended room before (ms.take before.length)).contentOf room d = .ok m.content

structure Stores (s : Server) (room : RoomId) (sender : UserId) (ds : List Draft)
    (ms : List Message) (s' : Server) : Prop extends s.Writes room sender ds ms s' where
  fresh : ∀ m ∈ ms, ∀ room' m', m' ∈ s.timeline room' → m'.id ≠ m.id
  distinct : (ms.map (·.id)).Nodup
  rising : (s.timeline room ++ ms).Pairwise fun m m' => m.sequence < m'.sequence

structure Sends (s : Server) (room : RoomId) (ms : List Message) (s' : Server) : Prop where
  next : s.nextSequence ≤ s'.nextSequence
  housed : ∀ m ∈ ms, m.room = room
  named : ∀ m ∈ ms, m.id = eventNumbered m.sequence
  new : ∀ m ∈ ms, s.nextSequence ≤ m.sequence
  numbered : ∀ m ∈ ms, m.sequence < s'.nextSequence

/-- What a sending stores, and what it answers: all drafts are stored and returned, or those before
the first that cannot be sent are stored and an error is returned. -/
inductive Sending (s : Server) (room : RoomId) (sender : UserId) :
    List Draft → List Message → Server × Except ServerFault (List Message) → Prop where
  | unknownRoom {ds : List Draft} : s.timelines.contains room = false →
      Sending s room sender ds [] (s, .error (.unknownRoom room))
  | sent {ds : List Draft} {ms : List Message} {s' : Server} :
      s.timelines.contains room = true → s.Sendable room ds → s.Stores room sender ds ms s' →
      Sending s room sender ds ms (s', .ok ms)
  | stopped {before after : List Draft} {d : Draft} {text : String} {ms : List Message}
      {s' : Server} : s.timelines.contains room = true → s.Sendable room before →
      s.Stores room sender before ms s' → d.target? = some text → ¬ s.Finds room before text →
      Sending s room sender (before ++ d :: after) ms
        ({ s' with nextSequence := s'.nextSequence + 1 }, .error (.unknownBody room text))

def SameRecords (s s' : Server) : Prop :=
  s'.timelines = s.timelines ∧ s'.bodies = s.bodies ∧ s'.receipts = s.receipts

instance (s s' : Server) : Decidable (s.SameRecords s') :=
  inferInstanceAs (Decidable (_ ∧ _ ∧ _))

variable {s s' : Server} {room : RoomId} {sender : UserId} {ds ds' : List Draft} {d : Draft}
  {m : Message} {ms ms' : List Message} {text : String}

/-! ## More and more messages -/

theorem extended_nil (h : s.timelines.contains room = true) : s.extended room [] [] = s := by
  obtain ⟨l, hl⟩ := Table.contains_iff.1 h
  have hsame : s.timelines.insert room (s.timeline room ++ []) = s.timelines := by
    apply Table.insert_of_get?
    rw [List.append_nil, timeline, hl, Option.getD_some]
  simp only [extended, hsame]
  rfl

theorem textsOf_append (h : ds.length = ms.length) :
    textsOf room (ds ++ ds') (ms ++ ms') = textsOf room ds ms ++ textsOf room ds' ms' := by
  rw [textsOf, List.zip_append h, List.filterMap_append]
  rfl

theorem timeline_extended (s : Server) (room : RoomId) (ds : List Draft) (ms : List Message) :
    (s.extended room ds ms).timeline room = s.timeline room ++ ms := by
  simp only [timeline, extended, Table.get?_insert_self, Option.getD_some]

theorem extended_extended (h : ds.length = ms.length) :
    (s.extended room ds ms).extended room ds' ms' = s.extended room (ds ++ ds') (ms ++ ms') := by
  have htimeline := timeline_extended s room ds ms
  have hbodies : (s.bodies.insertAll (textsOf room ds ms)).insertAll (textsOf room ds' ms') =
      s.bodies.insertAll (textsOf room (ds ++ ds') (ms ++ ms')) := by
    rw [textsOf_append h]
    exact (List.foldl_append ..).symm
  unfold extended at htimeline ⊢
  simp only [htimeline, hbodies, Table.insert_insert, List.append_assoc, List.length_append,
    Nat.add_assoc]

theorem textsOf_singleton : textsOf room [d] [m] =
    (d.body?.map fun text => ((room, text), m.id)).toList := by
  cases h : d.body? <;> simp [textsOf, h]

theorem post_eq_extended :
    ({ s with nextSequence := s.nextSequence + 1 } : Server).post m d.body? =
      s.extended m.room [d] [m] := by
  unfold post extended
  rw [textsOf_singleton]
  cases d.body? <;> rfl

theorem contains_extended :
    (s.extended room ds ms).timelines.contains room = true :=
  Table.contains_iff.2 ⟨_, Table.get?_insert_self _ _ _⟩

theorem mem_textsOf (h : ds.length = ms.length) :
    (∃ p ∈ textsOf room ds ms, p.1 = (room, text)) ↔ ∃ d ∈ ds, d.body? = some text := by
  have hfirsts : (ds.zip ms).map Prod.fst = ds := List.map_fst_zip (Nat.le_of_eq h)
  constructor
  · rintro ⟨p, hp, hkey⟩
    obtain ⟨⟨d, m⟩, hmem, hmap⟩ := List.mem_filterMap.1 hp
    obtain ⟨text', hbody, rfl⟩ := Option.map_eq_some_iff.1 hmap
    cases hkey
    exact ⟨d, (List.of_mem_zip hmem).1, hbody⟩
  · rintro ⟨d, hd, hbody⟩
    rw [← hfirsts] at hd
    obtain ⟨⟨d, m⟩, hmem, rfl⟩ := List.mem_map.1 hd
    refine ⟨((room, text), m.id), List.mem_filterMap.2 ⟨(d, m), hmem, ?_⟩, rfl⟩
    exact Option.map_eq_some_iff.2 ⟨text, hbody, rfl⟩

theorem contains_bodies_extended (h : ds.length = ms.length) :
    (s.extended room ds ms).bodies.contains (room, text) = true ↔ s.Finds room ds text :=
  (Table.contains_insertAll _).trans (or_congr_right (mem_textsOf h))

/-! ## One draft -/

theorem contentOf_cases (s : Server) (room : RoomId) (d : Draft) :
    (∃ content, s.contentOf room d = .ok content ∧
      ∀ text, d.target? = some text → s.bodies.contains (room, text) = true) ∨
    ∃ text, d.target? = some text ∧ s.bodies.contains (room, text) = false ∧
      s.contentOf room d = .error (.unknownBody room text) := by
  have hresolve : ∀ text (make : EventId → Content),
      (∃ content, (s.resolve room text).map make = .ok content ∧
        s.bodies.contains (room, text) = true) ∨
      s.bodies.contains (room, text) = false ∧
        (s.resolve room text).map make = .error (.unknownBody room text) := by
    intro text make
    unfold resolve
    cases h : s.bodies.get? (room, text) with
    | none => exact .inr ⟨Table.contains_eq_false_iff.2 h, rfl⟩
    | some id => exact .inl ⟨make id, rfl, Table.contains_iff.2 ⟨id, h⟩⟩
  have hrelated : ∀ text make, d.target? = some text →
      s.contentOf room d = (s.resolve room text).map make →
      (∃ content, s.contentOf room d = .ok content ∧
        ∀ text, d.target? = some text → s.bodies.contains (room, text) = true) ∨
      ∃ text, d.target? = some text ∧ s.bodies.contains (room, text) = false ∧
        s.contentOf room d = .error (.unknownBody room text) := by
    intro text make htarget hcontent
    rw [hcontent]
    rcases hresolve text make with ⟨content, hok, hfound⟩ | ⟨hnone, herror⟩
    · refine .inl ⟨content, hok, fun text' h => ?_⟩
      cases htarget.symm.trans h
      exact hfound
    · exact .inr ⟨text, htarget, hnone, herror⟩
  cases d with
  | plain _ => exact .inl ⟨.plain, rfl, fun _ h => nomatch h⟩
  | state notify => exact .inl ⟨.state notify, rfl, fun _ h => nomatch h⟩
  | threadReply root _ => exact hrelated root .threadReply rfl rfl
  | reply target _ => exact hrelated target .reply rfl rfl
  | edit target _ => exact hrelated target .edit rfl rfl
  | reaction target key => exact hrelated target (.reaction · key) rfl rfl

theorem contentOf_congr (h : s'.bodies = s.bodies) (d : Draft) :
    s'.contentOf room d = s.contentOf room d := by
  cases d <;> simp only [contentOf, resolve, h]

/-! ## Draft after draft -/

/-- A sending goes through, or it stops at a draft that has no content once those before it were
sent. -/
theorem sendAll_cases (room : RoomId) (sender : UserId) (ds : List Draft) (s : Server) :
    (∃ s' ms, sendAll room sender ds s = (s', .ok ms)) ∨
    ∃ before d after s' ms why, ds = before ++ d :: after ∧
      sendAll room sender before s = (s', .ok ms) ∧ s'.contentOf room d = .error why ∧
      sendAll room sender ds s = ({ s' with nextSequence := s'.nextSequence + 1 }, .error why) := by
  induction ds generalizing s with
  | nil => exact .inl ⟨s, [], rfl⟩
  | cons d ds ih =>
    have hsame : ({ s with nextSequence := s.nextSequence + 1 } : Server).contentOf room d =
      s.contentOf room d := contentOf_congr rfl d
    cases hc : s.contentOf room d with
    | error why =>
      refine .inr ⟨[], d, ds, s, [], why, rfl, rfl, hc, ?_⟩
      simp only [sendAll, hsame, hc]
    | ok content =>
      rcases ih (({ s with nextSequence := s.nextSequence + 1 } : Server).post
        ⟨eventNumbered s.nextSequence, room, sender, s.nextSequence, content, false⟩ d.body?) with
        ⟨s', ms, hsent⟩ | ⟨before, d', after, s', ms, why, rfl, hsent, hstop, hall⟩
      · refine .inl ⟨s', ?_⟩
        simp only [sendAll, hsame, hc, hsent]
        exact ⟨_, rfl⟩
      · refine .inr ⟨d :: before, d', after, s', ?_⟩
        simp only [sendAll, hsame, hc, hsent, hall]
        exact ⟨_, why, rfl, rfl, hstop, rfl⟩

namespace Writes

theorem length_eq (h : s.Writes room sender ds ms s') : ds.length = ms.length := by
  have hlength := congrArg List.length h.numbers
  rw [List.length_map, List.length_range'] at hlength
  exact hlength.symm

theorem nil (hroom : s.timelines.contains room = true) : s.Writes room sender [] [] s where
  state := (extended_nil hroom).symm
  numbers := rfl
  made _ h := nomatch h
  content before d after h := by
    cases before <;> cases h

theorem cons {content : Content} (hroom : s.timelines.contains room = true)
    (hc : s.contentOf room d = .ok content)
    (hm : m = ⟨eventNumbered s.nextSequence, room, sender, s.nextSequence, content, false⟩)
    (h : (s.extended room [d] [m]).Writes room sender ds ms s') :
    s.Writes room sender (d :: ds) (m :: ms) s' where
  state := h.state.trans (extended_extended rfl)
  numbers := by
    rw [List.map_cons, h.numbers, List.length_cons, List.range'_succ, hm]
    rfl
  made := by
    refine List.forall_mem_cons.2 ⟨?_, h.made⟩
    rw [hm]
    exact ⟨rfl, rfl, rfl, rfl⟩
  content before d' after he := by
    cases before with
    | nil =>
      cases he
      refine ⟨m, rfl, ?_⟩
      rw [List.length_nil, List.take_zero, extended_nil hroom, hc, hm]
    | cons first before =>
      obtain ⟨rfl, hrest⟩ := List.cons.inj he
      obtain ⟨m', hm', hcontent⟩ := h.content before d' after hrest
      exact ⟨m', hm', by rwa [extended_extended rfl] at hcontent⟩

end Writes

theorem writes_of_sendAll (hroom : s.timelines.contains room = true)
    (h : sendAll room sender ds s = (s', .ok ms)) : s.Writes room sender ds ms s' := by
  induction ds generalizing s ms with
  | nil =>
    cases h
    exact .nil hroom
  | cons d ds ih =>
    have hsame : ({ s with nextSequence := s.nextSequence + 1 } : Server).contentOf room d =
      s.contentOf room d := contentOf_congr rfl d
    cases hc : s.contentOf room d with
    | error why =>
      simp only [sendAll, hsame, hc] at h
      cases h
    | ok content =>
      simp only [sendAll, hsame, hc, post_eq_extended] at h
      generalize hm : (⟨eventNumbered s.nextSequence, room, sender, s.nextSequence, content,
        false⟩ : Message) = m at h
      cases hrest : sendAll room sender ds (s.extended room [d] [m]) with
      | mk s₁ rest =>
        rw [hrest] at h
        cases rest with
        | error why => cases h
        | ok ms' =>
          cases h
          exact .cons hroom hc hm.symm (ih contains_extended hrest)

theorem Writes.sendable (h : s.Writes room sender ds ms s') : s.Sendable room ds := by
  intro before d after text he htarget
  obtain ⟨m, hm, hcontent⟩ := h.content before d after he
  have hlength : before.length = (ms.take before.length).length := by
    obtain ⟨hlt, -⟩ := List.getElem?_eq_some_iff.1 hm
    rw [List.length_take, Nat.min_eq_left (Nat.le_of_lt hlt)]
  rw [← contains_bodies_extended hlength]
  rcases contentOf_cases (s.extended room before (ms.take before.length)) room d with
    ⟨content, -, hfound⟩ | ⟨text', -, -, herror⟩
  · exact hfound text htarget
  · rw [hcontent] at herror
    cases herror

theorem Writes.sends (h : s.Writes room sender ds ms s') : s.Sends room ms s' := by
  have hnext : s'.nextSequence = s.nextSequence + ds.length := h.state ▸ rfl
  have hnumbers : ∀ m ∈ ms, s.nextSequence ≤ m.sequence ∧ m.sequence < s'.nextSequence := by
    intro m hm
    have hmem : m.sequence ∈ ms.map (·.sequence) := List.mem_map_of_mem hm
    rw [h.numbers, List.mem_range'_1, ← hnext] at hmem
    exact hmem
  exact {
    next := hnext ▸ Nat.le_add_right _ _
    housed := fun m hm => (h.made m hm).2.1
    named := fun m hm => (h.made m hm).1
    new := fun m hm => (hnumbers m hm).1
    numbered := fun m hm => (hnumbers m hm).2 }

theorem Writes.stores (h : s.Writes room sender ds ms s') (hs : s.Sound) :
    s.Stores room sender ds ms s' := by
  have hnew : ∀ m ∈ ms, s.nextSequence ≤ m.sequence := h.sends.new
  have hrising : ms.Pairwise fun m m' => m.sequence < m'.sequence := by
    rw [← List.pairwise_map (f := fun m : Message => m.sequence) (R := (· < ·)), h.numbers]
    exact List.pairwise_lt_range'
  constructor
  case toWrites => exact h
  case fresh =>
    intro m hm room' m' hm' hid
    rw [(h.made m hm).1, hs.named hm'] at hid
    have hlt := hs.numbered hm'
    rw [Reference.eventNumbered_injective hid] at hlt
    exact Nat.lt_irrefl _ (Nat.lt_of_lt_of_le hlt (hnew m hm))
  case distinct =>
    rw [List.Nodup, List.pairwise_map]
    refine hrising.imp_of_mem fun {m m'} hm hm' hlt hid => ?_
    rw [(h.made m hm).1, (h.made m' hm').1] at hid
    exact Nat.ne_of_lt hlt (Reference.eventNumbered_injective hid)
  case rising =>
    refine List.pairwise_append.2 ⟨hs.rising room, hrising, fun m' hm' m hm => ?_⟩
    exact Nat.lt_of_lt_of_le (hs.numbered hm') (hnew m hm)

/-! ## Whole sendings -/

theorem sends_send (h : s.send room sender ds = (s', .ok ms)) : s.Sends room ms s' := by
  unfold send at h
  split at h
  next hroom => exact (writes_of_sendAll hroom h).sends
  next => cases h

theorem sending_send (hs : s.Sound) (room : RoomId) (sender : UserId) (ds : List Draft) :
    ∃ ms, s.Sending room sender ds ms (s.send room sender ds) := by
  unfold send
  cases hroom : s.timelines.contains room with
  | false => exact ⟨[], .unknownRoom hroom⟩
  | true =>
    rw [if_pos rfl]
    rcases sendAll_cases room sender ds s with
      ⟨s', ms, hsent⟩ | ⟨before, d, after, s', ms, why, rfl, hsent, hstop, hall⟩
    · have hw := writes_of_sendAll hroom hsent
      rw [hsent]
      exact ⟨ms, .sent hroom hw.sendable (hw.stores hs)⟩
    · have hw := writes_of_sendAll hroom hsent
      rw [hall]
      refine ⟨ms, ?_⟩
      rcases contentOf_cases s' room d with ⟨content, hok, -⟩ | ⟨text, htarget, hnone, herror⟩
      · rw [hstop] at hok
        cases hok
      · rw [hstop] at herror
        cases herror
        refine .stopped hroom hw.sendable (hw.stores hs) htarget fun hfinds => ?_
        rw [← contains_bodies_extended hw.length_eq, ← hw.state, hnone] at hfinds
        cases hfinds

theorem Writes.sameRecords_iff (h : s.Writes room sender ds ms s')
    (hroom : s.timelines.contains room = true) : s.SameRecords s' ↔ ms = [] := by
  rw [h.state]
  constructor
  · rintro ⟨htimelines, -⟩
    have htimeline := timeline_extended s room ds ms
    rw [timeline, htimelines] at htimeline
    exact List.self_eq_append_right.1 htimeline
  · rintro rfl
    have hnil : ds = [] := List.eq_nil_of_length_eq_zero h.length_eq
    rw [hnil, extended_nil hroom]
    exact ⟨rfl, rfl, rfl⟩

/-- A sending leaves the records alone exactly if it stores no message. -/
theorem Sending.sameRecords_iff {answer : Server × Except ServerFault (List Message)}
    (h : s.Sending room sender ds ms answer) : s.SameRecords answer.1 ↔ ms = [] := by
  cases h with
  | unknownRoom _ => exact iff_of_true ⟨rfl, rfl, rfl⟩ rfl
  | sent hroom _ hstores => exact hstores.toWrites.sameRecords_iff hroom
  | stopped hroom _ hstores _ _ => exact hstores.toWrites.sameRecords_iff hroom

/-! ## Any changes -/

end Server

inductive ServerChange where
  | call (c : ServerCall)
  | takeReceipt (user : UserId) (slot : Slot) (event : EventId)
  | turnDown (on : Bool)
  deriving DecidableEq, Inhabited

namespace Server

def change (s : Server) : ServerChange → Server
  | .call c => s.call c
  | .takeReceipt user slot event => (s.takeReceipt user slot event).1
  | .turnDown on => { s with rejecting := on }

def changeAll (changes : List ServerChange) : Server := changes.foldl change {}

theorem Sound.change {s : Server} (hs : s.Sound) (c : ServerChange) : (s.change c).Sound := by
  cases c with
  | call c => exact hs.call c
  | takeReceipt user slot event => exact hs.takeReceipt user slot event
  | turnDown on => exact hs.congr (fun _ => rfl) rfl (Nat.le_refl _)

theorem sound_changeAll (changes : List ServerChange) : (changeAll changes).Sound := by
  have hkept : ∀ {s : Server}, s.Sound → (changes.foldl Server.change s).Sound := by
    induction changes with
    | nil => exact id
    | cons c changes ih => exact fun hs => ih (hs.change c)
  exact hkept sound_start

/-- After any changes, a sending stores its drafts up to the first that relates to a text which
nothing has: all of them are returned, or an error is.  So it leaves timelines, texts and receipts
alone exactly if it stores nothing. -/
theorem send_stores_up_to_first_fault (changes : List ServerChange) (room : RoomId)
    (sender : UserId) (ds : List Draft) :
    let s := changeAll changes
    ∃ stored, s.Sending room sender ds stored (s.send room sender ds) ∧
      (s.SameRecords (s.send room sender ds).1 ↔ stored = []) := by
  intro s
  obtain ⟨stored, hsending⟩ := sending_send (sound_changeAll changes) room sender ds
  exact ⟨stored, hsending, hsending.sameRecords_iff⟩

/-- A text that nothing has turns the sending down, and the message before it stays, unreturned. -/
theorem send_turned_down_keeps_message :
    let room := roomNamed "r"
    let s := changeAll [.call (.createRoom "r")]
    let answer := s.send room ⟨"@a"⟩ [.plain "a", .reaction "nope" "+"]
    answer.2 = .error (.unknownBody room "nope") ∧ s.timeline room = [] ∧
      (answer.1.timeline room).map (·.id) = [eventNumbered 1] ∧
      answer.1.resolve room "a" = .ok (eventNumbered 1) ∧ ¬ s.SameRecords answer.1 := by
  decide +kernel

end Server

end ReadTracking
