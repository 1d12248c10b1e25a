import Mathlib.Data.List.Dedup
import Mathlib.Data.List.Perm.Subperm
import ReadTracking.Proofs.Conduct
import ReadTracking.Proofs.Timeless

/-!
# Deliveries

Messages and receipts come in any order, in batches of any size, and more than once.  A message
that tells its scope is indexed there whenever it comes, so what is indexed after some deliveries
is decided by which messages came.  A receipt whose message is not indexed waits for it, and what
waits is decided by which receipts came and what is indexed.
-/

set_option autoImplicit false

namespace ReadTracking

structure Receipt where
  room : RoomId
  event : EventId
  visibility : Visibility
  deriving DecidableEq

def Receipt.moment (reader : UserId) (r : Receipt) : Moment :=
  .command (.receipt r.room reader r.event r.visibility .scope)

namespace Moment

def batch? : Moment → Option Batch
  | .command c => c.batch?
  | .surroundings _ | .subscribe | .unsubscribe _ => none

def receipted? : Moment → Option EventId
  | .command (.receipt _ _ event _ _) => some event
  | .command (.markRoomRead _) | .command (.viewRoom _) | .command (.viewThread _ _)
  | .command .closeThread | .command .leave | .command (.jump _ _ _) | .command (.supply _ _)
  | .command (.receive _ _ _) | .command (.backfill _ _ _) | .command (.sendFailed _ _ _)
  | .command (.forget _) | .command (.tick _) | .surroundings _ | .subscribe
  | .unsubscribe _ => none

/-- A moment delivers some of the given messages or one of the given receipts, or time passes. -/
inductive Delivers (reader : UserId) (messages : List Message) (receipts : List Receipt) :
    Moment → Prop where
  | wait (ambient : Ambient) : Delivers reader messages receipts (.surroundings ambient)
  | receive (room : RoomId) {batch : List Message} (h : batch ⊆ messages) :
    Delivers reader messages receipts (.command (.receive room batch false))
  | backfill (room : RoomId) {batch : List Message} (h : batch ⊆ messages) :
    Delivers reader messages receipts (.command (.backfill room batch none))
  | receipt {r : Receipt} (h : r ∈ receipts) :
    Delivers reader messages receipts (r.moment reader)

theorem receipted?_of_batch? {m : Moment} {b : Batch} (h : m.batch? = some b) :
    m.receipted? = none := by
  cases m with
  | surroundings | subscribe | unsubscribe => rfl
  | command c =>
    cases c with
    | receipt => cases h
    | markRoomRead | viewRoom | viewThread | closeThread | leave | jump | supply | receive
    | backfill | sendFailed | forget | tick => rfl

end Moment

variable {reader : UserId} {ms : List Moment} {m : Moment}

theorem Receipt.moment_mem_append (r : Receipt) (h : m.receipted? = none) :
    r.moment reader ∈ ms ++ [m] ↔ r.moment reader ∈ ms := by
  rw [List.mem_append, List.mem_singleton]
  refine or_iff_left ?_
  rintro rfl
  cases h

theorem Receipt.moment_inj {r r' : Receipt} : r'.moment reader = r.moment reader ↔ r' = r := by
  obtain ⟨room, event, v⟩ := r
  obtain ⟨room', event', v'⟩ := r'
  simp [moment]

theorem Receipt.mem_append_moment (r r' : Receipt) :
    r'.moment reader ∈ ms ++ [r.moment reader] ↔ r'.moment reader ∈ ms ∨ r' = r := by
  rw [List.mem_append, List.mem_singleton, moment_inj]

theorem Moment.Delivers.mem_receipts {messages : List Message} {receipts : List Receipt}
    {r : Receipt} (h : (r.moment reader).Delivers reader messages receipts) : r ∈ receipts := by
  generalize hm : r.moment reader = m at h
  cases h with
  | wait | receive | backfill => cases hm
  | receipt h =>
    cases Receipt.moment_inj.1 hm
    exact h

/-! ## Messages that came -/

def Message.Came (ms : List Moment) (m : Message) : Prop :=
  ∃ moment ∈ ms, ∃ b, moment.batch? = some b ∧ m ∈ b.messages ∧ m.room = b.room

def Content.placesItself : Content → Bool
  | .plain | .reply _ | .threadReply _ | .state _ | .other => true
  | .edit _ | .reaction _ _ => false

def Message.ownScope (m : Message) : Scope :=
  match m.content with
  | .threadReply root => .ofThread m.room root
  | .plain | .reply _ | .edit _ | .reaction _ _ | .state _ | .other => .ofRoom m.room

theorem Chronicle.scopeFor_of_placesItself (c : Chronicle) {m : Message}
    (h : m.content.placesItself = true) : c.scopeFor m = m.ownScope := by
  unfold scopeFor Message.ownScope
  cases hc : m.content with
  | plain | reply | threadReply | state | other => rfl
  | edit | reaction =>
    rw [hc] at h
    cases h

theorem Chronicle.scope_take {c : Chronicle} {b : Batch}
    (hb : ∀ m ∈ b.messages, m.content.placesItself = true) {id : EventId} {e : Indexed}
    (hnew : c.get? id = none) (he : (c.take b).1.get? id = some e) :
    e.scope = e.message.ownScope := by
  let Own (c' : Chronicle) : Prop :=
    ∀ e, c'.get? id = some e → e.scope = e.message.ownScope
  have hfirst : Own c := by
    intro e he
    rw [hnew] at he
    cases he
  have hstep : ∀ c', ∀ m ∈ b.messages, m.room = b.room → Own c' → Own (c'.append m).1 := by
    intro c' m hm _ hc' e he
    cases hid : c'.get? m.id with
    | some e' =>
      rw [append_of_contains c' (Table.contains_iff.2 ⟨e', hid⟩)] at he
      exact hc' e he
    | none =>
      refine forall_append hid (P := fun id' e => id' = id → e.scope = e.message.ownScope)
        (fun _ => c'.scopeFor_of_placesItself (hb m hm)) ?_ he rfl
      rintro _ e' he' rfl
      exact hc' e' he'
  exact appendAll_keeps hstep hfirst e (get?_take.symm.trans he)

namespace Chronicle

structure Takes (c : Chronicle) (messages : List Message) (ms : List Moment) (c' : Chronicle) :
    Prop where
  sound : c'.Sound
  judge : c'.judge = c.judge
  gaps : ∀ s, (c'.strand s).gaps = (c.strand s).gaps
  old : ∀ {id e}, c.get? id = some e → c'.get? id = some e
  new : ∀ {id e}, c.get? id = none → c'.get? id = some e →
    e.message ∈ messages ∧ e.scope = e.message.ownScope
  came : ∀ m : Message, m.Came ms → ∃ e, c'.get? m.id = some e

namespace Takes

variable {c c' : Chronicle} {messages : List Message}

theorem start (hc : c.Sound) : c.Takes messages [] c where
  sound := hc
  judge := rfl
  gaps _ := rfl
  old he := he
  new hn he := by
    rw [hn] at he
    cases he
  came m hm := by
    obtain ⟨_, h, -⟩ := hm
    cases h

theorem unindexed (h : c.Takes messages ms c') {id : EventId} (hn : c'.get? id = none) :
    c.get? id = none := by
  cases he : c.get? id with
  | none => rfl
  | some e => exact (h.old he).symm.trans hn

theorem quiet (h : c.Takes messages ms c') (hm : m.batch? = none) :
    c.Takes messages (ms ++ [m]) c' := by
  refine ⟨h.sound, h.judge, h.gaps, h.old, h.new, ?_⟩
  rintro message ⟨moment, hmoment, b, hb, hin, hr⟩
  rcases List.mem_append.1 hmoment with hmoment | hmoment
  · exact h.came message ⟨moment, hmoment, b, hb, hin, hr⟩
  · cases List.mem_singleton.1 hmoment
    cases hm.symm.trans hb

theorem batch (h : c.Takes messages ms c')
    (hself : ∀ m ∈ messages, m.content.placesItself = true) {b : Batch} (hm : m.batch? = some b)
    (hsub : b.messages ⊆ messages) (hl : b.limited = false) (hf : b.filled = none) :
    c.Takes messages (ms ++ [m]) (c'.take b).1 where
  sound := h.sound.take
  judge := judge_take.trans h.judge
  gaps s := (h.sound.gaps_take hl hf s).trans (h.gaps s)
  old he := get?_take_of_some (h.old he)
  new := by
    intro id e hn he
    rcases of_get?_take he with he' | ⟨hn', hin, -⟩
    · exact h.new hn he'
    · exact ⟨hsub hin, scope_take (fun m hm => hself m (hsub hm)) hn' he⟩
  came := by
    rintro message ⟨moment, hmoment, b', hb', hin, hr⟩
    rcases List.mem_append.1 hmoment with hmoment | hmoment
    · obtain ⟨e, he⟩ := h.came message ⟨moment, hmoment, b', hb', hin, hr⟩
      exact ⟨e, get?_take_of_some he⟩
    · cases List.mem_singleton.1 hmoment
      cases hm.symm.trans hb'
      exact exists_get?_take hin hr

theorem holds {d d' : Chronicle} {ms' : List Moment} (h : c.Takes messages ms d)
    (h' : c.Takes messages ms' d') (hn : (messages.map (·.id)).Nodup)
    (hcame : ∀ m ∈ messages, m.Came ms') : d'.Holds d := by
  intro id e he
  cases hold : c.get? id with
  | some e₀ =>
    cases (h.old hold).symm.trans he
    exact ⟨e, h'.old hold, rfl, rfl, rfl, rfl⟩
  | none =>
    obtain ⟨hm, hs⟩ := h.new hold he
    have hid := h.sound.named he
    obtain ⟨e', he'⟩ := h'.came e.message (hcame _ hm)
    rw [hid] at he'
    obtain ⟨hm', hs'⟩ := h'.new hold he'
    have hsame : e'.message = e.message :=
      List.inj_on_of_nodup_map hn hm' hm ((h'.sound.named he').trans hid.symm)
    refine ⟨e', he', hsame, ?_, ?_, ?_⟩
    · rw [hs', hs, hsame]
    · rw [h'.sound.numbered he', h.sound.numbered he, hsame]
    · rw [h'.sound.judged he', h.sound.judged he, h'.judge, h.judge, hsame]

end Takes

end Chronicle

/-! ## Receipts that wait -/

def Chronicle.waitingFor (c : Chronicle) (ms : List Moment) : List EventId :=
  (ms.filterMap Moment.receipted?).dedup.filter fun id => !c.events.contains id

theorem Chronicle.mem_waitingFor {c : Chronicle} {id : EventId} :
    id ∈ c.waitingFor ms ↔ id ∈ ms.filterMap Moment.receipted? ∧ c.get? id = none := by
  unfold waitingFor get?
  rw [List.mem_filter, List.mem_dedup, Bool.not_eq_true', Table.contains_eq_false_iff]

/-- Receipts wait for no more messages than moments have passed. -/
theorem Chronicle.length_waitingFor_le (c : Chronicle) (ms : List Moment) :
    (c.waitingFor ms).length ≤ ms.length := by
  have hdedup := (List.dedup_sublist (ms.filterMap Moment.receipted?)).length_le
  exact Nat.le_trans (List.length_filter_le _ _)
    (Nat.le_trans hdedup (List.length_filterMap_le _ _))

structure Pending (reader : UserId) (ms : List Moment) (c : Chronicle)
    (held : Table EventId Held) : Prop where
  waits : ∀ r : Receipt, r.moment reader ∈ ms → c.get? r.event = none →
    ∃ h, held.get? r.event = some h ∧ (r.visibility, .scope) ∈ h.receipts
  came : ∀ {id h}, held.get? id = some h → id ∈ c.waitingFor ms ∧
    ∀ w ∈ h.receipts, w.2 = .scope ∧ ∃ room, Receipt.moment reader ⟨room, id, w.1⟩ ∈ ms

namespace Pending

variable {c : Chronicle} {held held' : Table EventId Held}

theorem start (hh : held.size = 0) : Pending reader [] c held where
  waits _ hr := nomatch hr
  came he := by
    rw [Table.size_eq_zero_iff.1 hh] at he
    cases he

theorem came_append (h : Pending reader ms c held) {id : EventId} {x : Held}
    (hx : held.get? id = some x) (m : Moment) : id ∈ c.waitingFor (ms ++ [m]) ∧
      ∀ w ∈ x.receipts, w.2 = .scope ∧
        ∃ room, Receipt.moment reader ⟨room, id, w.1⟩ ∈ ms ++ [m] := by
  obtain ⟨hid, hw⟩ := h.came hx
  obtain ⟨hmem, hn⟩ := Chronicle.mem_waitingFor.1 hid
  refine ⟨Chronicle.mem_waitingFor.2 ⟨?_, hn⟩, fun w hmem => ?_⟩
  · rw [List.filterMap_append]
    exact List.mem_append_left _ hmem
  · exact (hw w hmem).imp_right fun ⟨room, hr⟩ => ⟨room, List.mem_append_left _ hr⟩

theorem quiet (h : Pending reader ms c held) (hm : m.receipted? = none) :
    Pending reader (ms ++ [m]) c held where
  waits r hr := h.waits r ((r.moment_mem_append hm).1 hr)
  came hx := h.came_append hx m

theorem batch (h : Pending reader ms c held) (hc : c.Sound) {b : Batch}
    (hm : m.batch? = some b) (hheld : ∀ id, held'.get? id =
      if id ∈ (c.take b).2.map (·.id) then none else held.get? id) :
    Pending reader (ms ++ [m]) (c.take b).1 held' := by
  have hquiet := h.quiet (Moment.receipted?_of_batch? hm)
  refine ⟨fun r hr hn => ?_, fun {id x} hx => ?_⟩
  · have hold : c.get? r.event = none := by
      cases he : c.get? r.event with
      | none => rfl
      | some e => exact (Chronicle.get?_take_of_some he).symm.trans hn
    have hnot : r.event ∉ (c.take b).2.map (·.id) := by
      rw [hc.mem_placed_iff, hn]
      rintro ⟨-, e, he⟩
      cases he
    rw [hheld, if_neg hnot]
    exact hquiet.waits r hr hold
  · rw [hheld] at hx
    by_cases hid : id ∈ (c.take b).2.map (·.id)
    · rw [if_pos hid] at hx
      cases hx
    · rw [if_neg hid] at hx
      obtain ⟨hwait, hw⟩ := hquiet.came hx
      obtain ⟨hmem, hn⟩ := Chronicle.mem_waitingFor.1 hwait
      refine ⟨Chronicle.mem_waitingFor.2 ⟨hmem, ?_⟩, hw⟩
      refine Option.eq_none_iff_forall_ne_some.2 fun e he => hid ?_
      exact hc.mem_placed_iff.2 ⟨hn, e, he⟩

theorem known (h : Pending reader ms c held) {r : Receipt} {e : Indexed}
    (he : c.get? r.event = some e) : Pending reader (ms ++ [r.moment reader]) c held where
  waits r' hr' hn := by
    rcases (r.mem_append_moment r').1 hr' with hr' | rfl
    · exact h.waits r' hr' hn
    · rw [he] at hn
      cases hn
  came hx := h.came_append hx _

theorem unknown (h : Pending reader ms c held) {r : Receipt} (hn : c.get? r.event = none)
    {x : Held} (hx : ∀ w, w ∈ x.receipts ↔
      w = (r.visibility, .scope) ∨ ∃ y, held.get? r.event = some y ∧ w ∈ y.receipts) :
    Pending reader (ms ++ [r.moment reader]) c (held.insert r.event x) := by
  refine ⟨fun r' hr' hn' => ?_, fun {id y} hy => ?_⟩
  · by_cases he : r'.event = r.event
    · refine ⟨x, by rw [he, Table.get?_insert_self], (hx _).2 ?_⟩
      rcases (r.mem_append_moment r').1 hr' with hr' | rfl
      · exact .inr (he ▸ h.waits r' hr' hn')
      · exact .inl rfl
    · rw [Table.get?_insert_of_ne _ _ he]
      refine h.waits r' (((r.mem_append_moment r').1 hr').resolve_right ?_) hn'
      rintro rfl
      exact he rfl
  · by_cases he : id = r.event
    · subst he
      rw [Table.get?_insert_self] at hy
      cases hy
      refine ⟨Chronicle.mem_waitingFor.2 ⟨?_, hn⟩, fun w hw => ?_⟩
      · simp [Receipt.moment, Moment.receipted?]
      · rcases (hx w).1 hw with rfl | ⟨y, hy, hw⟩
        · exact ⟨rfl, r.room, List.mem_append_right _ List.mem_cons_self⟩
        · exact (h.came_append hy _).2 w hw
    · rw [Table.get?_insert_of_ne _ _ he] at hy
      exact h.came_append hy _

theorem size_lt (h : Pending reader ms c held) {r : Receipt} (hn : c.get? r.event = none)
    (hh : held.get? r.event = none) :
    held.size < (c.waitingFor (ms ++ [r.moment reader])).length := by
  have hnodup : (r.event :: held.keys).Nodup := by
    refine List.nodup_cons.2 ⟨fun hk => ?_, held.nodup_keys⟩
    obtain ⟨x, hx⟩ := Table.mem_keys.1 hk
    rw [hh] at hx
    cases hx
  have hsub : r.event :: held.keys ⊆ c.waitingFor (ms ++ [r.moment reader]) := by
    refine List.cons_subset.2 ⟨Chronicle.mem_waitingFor.2 ⟨?_, hn⟩, fun id hid => ?_⟩
    · simp [Receipt.moment, Moment.receipted?]
    · obtain ⟨x, hx⟩ := Table.mem_keys.1 hid
      exact (h.came_append hx _).1
  have hlen := (List.subperm_of_subset hnodup hsub).length_le
  rwa [List.length_cons, Table.length_keys, Nat.succ_le_iff] at hlen

end Pending

end ReadTracking
