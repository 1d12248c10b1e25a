import ReadTracking.Proofs.Capacity

/-!
# What a batch adds

A batch for a room indexes each new name once, whatever it repeats, and only for messages of
that room.  What was indexed stays, other rooms keep their logs, and gaps come and go in the room
of the batch alone.  The commands that bring messages differ only in the batch that they bring,
so what is indexed after a command is decided by its batch.
-/

set_option autoImplicit false

namespace ReadTracking

structure Batch where
  room : RoomId
  messages : List Message
  limited : Bool
  filled : Option Nat

namespace Chronicle

def take (c : Chronicle) (b : Batch) : Chronicle × List Placed :=
  let (c, placed) := c.ingest b.room b.messages b.limited
  (match b.filled with
    | some gap => (c.closeGap b.room gap).1
    | none => c, placed)

variable {c : Chronicle} {room : RoomId} {ms : List Message} {id : EventId}

/-! ## Messages one by one -/

theorem get?_append_of_ne_id (m : Message) (h : id ≠ m.id) :
    (c.append m).1.get? id = c.get? id := by
  cases hm : c.get? m.id with
  | some e => rw [append_of_contains c (Table.contains_iff.2 ⟨e, hm⟩)]
  | none => exact get?_append_of_ne hm h

theorem contains_append_self (m : Message) : ∃ e, (c.append m).1.get? m.id = some e := by
  cases hm : c.get? m.id with
  | some e => exact ⟨e, get?_append_of_some hm⟩
  | none => exact ⟨_, get?_append_self hm⟩

theorem judge_append (m : Message) : (c.append m).1.judge = c.judge := by
  unfold append
  split <;> rfl

theorem log_append_of_ne {room' : RoomId} (m : Message) (h : room' ≠ m.room) :
    (c.append m).1.log room' = c.log room' := by
  cases hm : c.get? m.id with
  | some e => rw [append_of_contains c (Table.contains_iff.2 ⟨e, hm⟩)]
  | none => rw [log_append hm, if_neg h]

/-! ## Batches -/

theorem get?_appendAll_of_some {e : Indexed} (h : c.get? id = some e) :
    (c.appendAll room ms).1.get? id = some e :=
  appendAll_keeps (P := fun c => c.get? id = some e) (fun _ _ _ _ h => get?_append_of_some h) h

theorem log_appendAll_of_ne {room' : RoomId} (h : room' ≠ room) :
    (c.appendAll room ms).1.log room' = c.log room' := by
  refine appendAll_keeps (P := fun c' => c'.log room' = c.log room') ?_ rfl
  rintro c' m - hr hc'
  exact (log_append_of_ne m fun e => h (e.trans hr)).trans hc'

theorem judge_appendAll : (c.appendAll room ms).1.judge = c.judge :=
  appendAll_keeps (P := fun c' => c'.judge = c.judge)
    (fun _ m _ _ h => (judge_append m).trans h) rfl

theorem Sound.appendAll (hc : c.Sound) : (c.appendAll room ms).1.Sound :=
  appendAll_keeps (fun _ m _ _ h => h.append m) hc

theorem Sound.gaps_appendAll (hc : c.Sound) (s : Scope) :
    ((c.appendAll room ms).1.strand s).gaps = (c.strand s).gaps := by
  have h : (c.appendAll room ms).1.Sound ∧
      ((c.appendAll room ms).1.strand s).gaps = (c.strand s).gaps :=
    appendAll_keeps (P := fun c' => c'.Sound ∧ (c'.strand s).gaps = (c.strand s).gaps)
      (fun c' m _ _ h => ⟨h.1.append m, (gaps_append h.1).trans h.2⟩) ⟨hc, rfl⟩
  exact h.2

theorem of_get?_appendAll {e : Indexed} (h : (c.appendAll room ms).1.get? id = some e) :
    c.get? id = some e ∨ c.get? id = none ∧ e.message ∈ ms ∧ e.message.room = room := by
  cases hid : c.get? id with
  | some e' =>
    left
    rw [get?_appendAll_of_some hid] at h
    exact h
  | none =>
    right
    let Came (c' : Chronicle) : Prop :=
      ∀ e, c'.get? id = some e → e.message ∈ ms ∧ e.message.room = room
    have hfirst : Came c := by
      intro e he
      rw [hid] at he
      cases he
    have hstep : ∀ c', ∀ m ∈ ms, m.room = room → Came c' → Came (c'.append m).1 := by
      intro c' m hm hr hc' e he
      cases hg : c'.get? m.id with
      | some e' =>
        rw [append_of_contains c' (Table.contains_iff.2 ⟨e', hg⟩)] at he
        exact hc' e he
      | none =>
        by_cases hne : id = m.id
        · subst hne
          rw [get?_append_self hg] at he
          cases he
          exact ⟨hm, hr⟩
        · rw [get?_append_of_ne hg hne] at he
          exact hc' e he
    exact ⟨rfl, appendAll_keeps hstep hfirst e h⟩

theorem mem_placed_append {m : Message} :
    id ∈ (c.append m).2.toList.map (·.id) ↔ c.get? id = none ∧ id = m.id := by
  cases hm : c.get? m.id with
  | some e =>
    rw [append_of_contains c (Table.contains_iff.2 ⟨e, hm⟩)]
    simp only [Option.toList_none, List.map_nil, List.not_mem_nil, false_iff]
    rintro ⟨hn, rfl⟩
    rw [hm] at hn
    cases hn
  | none =>
    rw [append_eq hm]
    simp only [Option.toList_some, List.map_cons, List.map_nil, List.mem_singleton]
    exact ⟨fun e => ⟨e ▸ hm, e⟩, fun h => h.2⟩

theorem mem_placed_appendAll : id ∈ (c.appendAll room ms).2.map (·.id) ↔
    c.get? id = none ∧ ∃ m ∈ ms, m.room = room ∧ m.id = id := by
  induction ms generalizing c with
  | nil => simp [appendAll]
  | cons m ms ih =>
    simp only [appendAll]
    split
    next hr =>
      rw [List.map_append, List.mem_append, mem_placed_append, ih]
      by_cases e : id = m.id
      · subst e
        obtain ⟨e, he⟩ := contains_append_self (c := c) m
        simp [he, hr]
      · have e' : ¬ m.id = id := fun h => e h.symm
        simp [get?_append_of_ne_id m e, e, e']
    next hr => simp [ih, hr]

theorem nodup_appendAll : ((c.appendAll room ms).2.map (·.id)).Nodup := by
  induction ms generalizing c with
  | nil => exact List.nodup_nil
  | cons m ms ih =>
    simp only [appendAll]
    split
    next =>
      rw [List.map_append]
      refine List.nodup_append.2 ⟨?_, ih, ?_⟩
      · cases (c.append m).2 with
        | none => exact List.nodup_nil
        | some p => exact List.pairwise_singleton _ _
      · rintro id hid id' hid' rfl
        obtain ⟨-, rfl⟩ := mem_placed_append.1 hid
        obtain ⟨e, he⟩ := contains_append_self (c := c) m
        rw [(mem_placed_appendAll.1 hid').1] at he
        cases he
    next => exact ih

/-! ## Batches with their gaps -/

variable {b : Batch} {limited : Bool}

theorem placed_ingest : (c.ingest room ms limited).2 = (c.appendAll room ms).2 :=
  (c.ingest_cases room ms limited).1

theorem get?_ingest : (c.ingest room ms limited).1.get? id = (c.appendAll room ms).1.get? id := by
  obtain ⟨-, h | ⟨roots, p, -, h⟩⟩ := c.ingest_cases room ms limited
  · rw [h]
  · rw [h]
    rfl

theorem judge_ingest : (c.ingest room ms limited).1.judge = c.judge := by
  obtain ⟨-, h | ⟨roots, p, -, h⟩⟩ := c.ingest_cases room ms limited
  · rw [h]
    exact judge_appendAll
  · rw [h]
    exact judge_appendAll

theorem judge_closeGap (room : RoomId) (q : Nat) : (c.closeGap room q).1.judge = c.judge := by
  unfold closeGap
  cases c.rooms.get? room <;> rfl

theorem log_ingest_of_ne {room' : RoomId} (hne : room' ≠ room) :
    (c.ingest room ms limited).1.log room' = c.log room' := by
  obtain ⟨-, h | ⟨roots, p, -, h⟩⟩ := c.ingest_cases room ms limited
  · rw [h]
    exact log_appendAll_of_ne hne
  · rw [h, log_openGap, if_neg hne]
    exact log_appendAll_of_ne hne

theorem placed_take : (c.take b).2 = (c.appendAll b.room b.messages).2 := placed_ingest

theorem take_cases (c : Chronicle) (b : Batch) :
    (c.take b).1 = (c.ingest b.room b.messages b.limited).1 ∨
      ∃ gap, (c.take b).1 =
        ((c.ingest b.room b.messages b.limited).1.closeGap b.room gap).1 := by
  obtain ⟨room, messages, limited, filled⟩ := b
  cases filled with
  | none => exact .inl rfl
  | some gap => exact .inr ⟨gap, rfl⟩

theorem get?_take : (c.take b).1.get? id = (c.appendAll b.room b.messages).1.get? id := by
  rcases c.take_cases b with h | ⟨gap, h⟩
  · rw [h]
    exact get?_ingest
  · rw [h]
    exact (get?_closeGap _ _ _).trans get?_ingest

theorem get?_take_of_some {e : Indexed} (h : c.get? id = some e) :
    (c.take b).1.get? id = some e :=
  get?_take.trans (get?_appendAll_of_some h)

theorem of_get?_take {e : Indexed} (h : (c.take b).1.get? id = some e) :
    c.get? id = some e ∨ c.get? id = none ∧ e.message ∈ b.messages ∧ e.message.room = b.room :=
  of_get?_appendAll (get?_take.symm.trans h)

theorem judge_take : (c.take b).1.judge = c.judge := by
  rcases c.take_cases b with h | ⟨gap, h⟩
  · rw [h]
    exact judge_ingest
  · rw [h, judge_closeGap]
    exact judge_ingest

theorem log_take_of_ne {room' : RoomId} (hne : room' ≠ b.room) :
    (c.take b).1.log room' = c.log room' := by
  rcases c.take_cases b with h | ⟨gap, h⟩
  · rw [h]
    exact log_ingest_of_ne hne
  · rw [h, log_closeGap, if_neg hne]
    exact log_ingest_of_ne hne

theorem Sound.take (hc : c.Sound) : (c.take b).1.Sound := by
  have hi := hc.ingest b.room b.messages b.limited
  rcases c.take_cases b with h | ⟨gap, h⟩
  · rw [h]
    exact hi
  · rw [h]
    exact hi.closeGap b.room gap

/-- Only a limited batch opens a gap, and only one that fills a gap closes one. -/
theorem Sound.gaps_take (hc : c.Sound) (hl : b.limited = false) (hf : b.filled = none)
    (s : Scope) : ((c.take b).1.strand s).gaps = (c.strand s).gaps := by
  obtain ⟨room, messages, limited, filled⟩ := b
  cases hl
  cases hf
  exact hc.gaps_appendAll s

theorem has_take : ∀ p ∈ (c.take b).2, (c.take b).1.Has p := by
  intro p hp
  rw [placed_take] at hp
  obtain ⟨e, he, hs⟩ := has_appendAll p hp
  exact ⟨e, get?_take.trans he, hs⟩

theorem nodup_take : ((c.take b).2.map (·.id)).Nodup := by
  rw [placed_take]
  exact nodup_appendAll

theorem mem_placed_take : id ∈ (c.take b).2.map (·.id) ↔
    c.get? id = none ∧ ∃ m ∈ b.messages, m.room = b.room ∧ m.id = id := by
  rw [placed_take]
  exact mem_placed_appendAll

theorem exists_get?_take {m : Message} (hm : m ∈ b.messages) (hr : m.room = b.room) :
    ∃ e, (c.take b).1.get? m.id = some e := by
  cases hid : c.get? m.id with
  | some e => exact ⟨e, get?_take_of_some hid⟩
  | none =>
    obtain ⟨p, hp, he⟩ := List.mem_map.1 (mem_placed_take.2 ⟨hid, m, hm, hr, rfl⟩)
    obtain ⟨e, hget, -⟩ := has_take p hp
    exact ⟨e, he ▸ hget⟩

theorem Sound.mem_placed_iff (hc : c.Sound) : id ∈ (c.take b).2.map (·.id) ↔
    c.get? id = none ∧ ∃ e, (c.take b).1.get? id = some e := by
  rw [mem_placed_take]
  refine and_congr_right fun hid => ⟨?_, ?_⟩
  · rintro ⟨m, hm, hr, rfl⟩
    exact exists_get?_take hm hr
  · rintro ⟨e, he⟩
    rcases of_get?_take he with hold | ⟨-, hm, hr⟩
    · rw [hid] at hold
      cases hold
    · exact ⟨e.message, hm, hr, hc.take.named he⟩

theorem Sound.room_placed (hc : c.Sound) {p : Placed} (hp : p ∈ (c.take b).2) :
    p.scope.room = b.room := by
  obtain ⟨e, he, hs, -⟩ := has_take p hp
  have hnew := (mem_placed_take.1 (List.mem_map_of_mem hp)).1
  rcases of_get?_take he with hold | ⟨-, -, hroom⟩
  · rw [hnew] at hold
    cases hold
  · rw [← hs, hc.take.housed he, hroom]

end Chronicle

def Command.batch? : Command → Option Batch
  | .receive room messages limited => some ⟨room, messages, limited, none⟩
  | .backfill room messages filled => some ⟨room, messages, false, filled⟩
  | .markRoomRead _ | .viewRoom _ | .viewThread _ _ | .closeThread | .leave | .jump _ _ _
  | .supply _ _ | .receipt _ _ _ _ _ | .sendFailed _ _ _ | .forget _ | .tick _ => none

namespace Tracker

variable {σ : Type} (t : Tracker σ)

def batch? : Command → Option Batch
  | .supply request messages =>
    (t.awaited.filter fun a => a.request = request).map fun a => ⟨a.room, messages, false, none⟩
  | c => c.batch?

def loaded (c : Command) : Tracker σ :=
  match t.batch? c with
  | some b => { t with chronicle := (t.chronicle.take b).1 }
  | none => t

def placed (c : Command) : List Placed :=
  match t.batch? c with
  | some b => (t.chronicle.take b).2
  | none => []

variable {t}

theorem batch?_of_batch? {c : Command} {b : Batch} (h : c.batch? = some b) :
    t.batch? c = some b := by
  cases c with
  | receive | backfill => exact h
  | markRoomRead | viewRoom | viewThread | closeThread | leave | jump | supply | receipt
  | sendFailed | forget | tick => cases h

theorem batch?_supply {a : Awaited} (ha : t.awaited = some a) (messages : List Message) :
    t.batch? (.supply a.request messages) = some ⟨a.room, messages, false, none⟩ := by
  simp only [batch?, ha, Option.filter_some, decide_true, if_true, Option.map_some]

theorem messages_batch? {c : Command} {b : Batch} (hb : t.batch? c = some b) :
    b.messages = c.messages := by
  cases c with
  | receive | backfill =>
    cases hb
    rfl
  | supply request messages =>
    obtain ⟨a, -, rfl⟩ := Option.map_eq_some_iff.1 hb
    rfl
  | markRoomRead | viewRoom | viewThread | closeThread | leave | jump | receipt | sendFailed
  | forget | tick => cases hb

theorem loaded_eq {c : Command} {b : Batch} (h : t.batch? c = some b) :
    t.loaded c = { t with chronicle := (t.chronicle.take b).1 } := by
  simp only [loaded, h]

theorem loaded_eq_self {c : Command} (h : t.batch? c = none) : t.loaded c = t := by
  simp only [loaded, h]

theorem loaded_with (t : Tracker σ) (c : Command) :
    ∃ chronicle, t.loaded c = { t with chronicle } := by
  unfold loaded
  split
  · exact ⟨_, rfl⟩
  · exact ⟨t.chronicle, rfl⟩

theorem placed_eq {c : Command} {b : Batch} (h : t.batch? c = some b) :
    t.placed c = (t.chronicle.take b).2 := by
  simp only [placed, h]

theorem placed_eq_nil {c : Command} (h : t.batch? c = none) : t.placed c = [] := by
  simp only [placed, h]

theorem sound_loaded (h : t.chronicle.Sound) (c : Command) : (t.loaded c).chronicle.Sound := by
  unfold loaded
  split
  · exact h.take
  · exact h

end Tracker

end ReadTracking
