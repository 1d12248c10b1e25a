import ReadTracking.Chronicle
import ReadTracking.Proofs.Tables

/-!
# What the chronicle holds

Every indexed message stands in the strand of its scope at its position, and everything in a
strand is indexed for it.  So the two tables of the chronicle tell one story: the messages of a
scope are the indexed messages that name it.  Indexing keeps what was indexed, and so do gaps.
-/

set_option autoImplicit false

namespace ReadTracking

open KeyOrder

def RoomLog.strand (log : RoomLog) (thread : Option EventId) : Strand :=
  (log.strand? thread).getD .empty

namespace RoomLog

variable (log : RoomLog) (thread thread' : Option EventId)

theorem strand_add (p : Position) (id : EventId) :
    (log.add thread p id).strand thread' =
      if thread' = thread then (log.strand thread).add p id else log.strand thread' := by
  cases thread with
  | none => cases thread' <;> simp [strand, add, strand?]
  | some root =>
    cases thread' with
    | none => simp [strand, add, strand?]
    | some root' =>
      by_cases e : root' = root
      · subst e
        simp [strand, add, strand?]
      · simp [strand, add, strand?, Table.get?_insert_of_ne _ _ e, e]

theorem contains_threads_add {p : Position} {id root : EventId}
    (h : (log.add thread p id).threads.contains root = true) :
    thread = some root ∨ log.threads.contains root = true := by
  cases thread with
  | none => exact .inr h
  | some root' =>
    by_cases e : root = root'
    · exact .inl (e ▸ rfl)
    · right
      simpa [add, Table.contains, Table.get?_insert_of_ne _ _ e] using h

theorem entries_openGap (roots : List EventId) (q : Nat) :
    ((log.openGap roots q).strand thread).entries = (log.strand thread).entries := by
  cases thread with
  | none => rfl
  | some root =>
    simp only [strand, openGap, strand?, Table.get?_mapValues]
    cases log.threads.get? root with
    | none => rfl
    | some s => by_cases h : root ∈ roots <;> simp [h, Strand.openGap]

theorem entries_closeGap (q : Nat) :
    ((log.closeGap q).strand thread).entries = (log.strand thread).entries := by
  cases thread with
  | none => rfl
  | some root =>
    simp only [strand, closeGap, strand?, Table.get?_mapValues]
    cases log.threads.get? root <;> rfl

theorem contains_gaps_openGap {roots : List EventId} {q g : Nat}
    (h : ((log.openGap roots q).strand thread).gaps.contains g = true) :
    g = q ∨ (log.strand thread).gaps.contains g = true := by
  have one : ∀ s : Strand, (s.openGap q).gaps.contains g = true →
      g = q ∨ s.gaps.contains g = true := by
    intro s hs
    by_cases e : g = q
    · exact .inl e
    · right
      simpa [Strand.openGap, Table.contains, Table.get?_insert_of_ne _ _ e] using hs
  cases thread with
  | none => exact one _ h
  | some root =>
    simp only [strand, openGap, strand?, Table.get?_mapValues] at h ⊢
    cases hs : log.threads.get? root with
    | none =>
      rw [hs] at h
      exact .inr h
    | some s =>
      rw [hs] at h
      by_cases hr : root ∈ roots
      · simp only [hr, if_true, Option.map_some, Option.getD_some] at h
        exact one s h
      · simp only [hr, if_false, Option.map_some, Option.getD_some] at h
        exact .inr h

theorem contains_gaps_closeGap {q g : Nat}
    (h : ((log.closeGap q).strand thread).gaps.contains g = true) :
    (log.strand thread).gaps.contains g = true := by
  have one : ∀ s : Strand, (s.closeGap q).gaps.contains g = true → s.gaps.contains g = true := by
    intro s hs
    simp only [Strand.closeGap, Table.contains, Table.get?_erase] at hs
    split at hs
    · cases hs
    · exact hs
  cases thread with
  | none => exact one _ h
  | some root =>
    simp only [strand, closeGap, strand?, Table.get?_mapValues] at h ⊢
    cases hs : log.threads.get? root with
    | none =>
      rw [hs] at h
      exact h
    | some s =>
      rw [hs] at h
      exact one s h

end RoomLog

namespace Chronicle

def log (c : Chronicle) (room : RoomId) : RoomLog := (c.rooms.get? room).getD .empty

def strand (c : Chronicle) (s : Scope) : Strand := (c.log s.room).strand s.thread

variable (c : Chronicle)

/-! ## Queries in terms of strands -/

theorem strand?_getD (s : Scope) : (c.strand? s).getD .empty = c.strand s := by
  simp only [strand?, strand, log, RoomLog.strand]
  cases c.rooms.get? s.room with
  | none => cases s.thread <;> rfl
  | some log => rfl

theorem lastGap_eq (s : Scope) : c.lastGap s = (c.strand s).lastGap := by
  rw [← strand?_getD, lastGap]
  cases c.strand? s <;> rfl

theorem hasGapAfter_eq (s : Scope) (q : Option Nat) :
    c.hasGapAfter s q = (c.strand s).hasGapAfter q := by
  rw [← strand?_getD, hasGapAfter]
  cases c.strand? s with
  | none => cases q <;> rfl
  | some s => rfl

theorem eventsAfter_eq (s : Scope) (cursor : Option Cursor) :
    c.eventsAfter s cursor = ((c.strand s).after cursor).filterMap c.get? := by
  rw [← strand?_getD, eventsAfter]
  cases c.strand? s with
  | none => cases cursor <;> rfl
  | some s => rfl

theorem latest_eq (s : Scope) : c.latest s = (c.strand s).latest.bind c.get? := by
  rw [← strand?_getD, latest]
  cases c.strand? s <;> rfl

theorem floor_eq (s : Scope) (q : Nat) : c.floor s q = ((c.strand s).floor q).bind c.get? := by
  rw [← strand?_getD, floor]
  cases c.strand? s <;> rfl

theorem hasThread_eq (room : RoomId) (root : EventId) :
    c.hasThread room root = (c.log room).threads.contains root := by
  simp only [hasThread, log]
  cases c.rooms.get? room <;> rfl

theorem hasThread_of_strand_ne_empty {room : RoomId} {root : EventId}
    (h : c.strand (.ofThread room root) ≠ .empty) : c.hasThread room root = true := by
  rw [hasThread_eq]
  cases hl : (c.log room).threads.get? root with
  | some strand => exact Table.contains_iff.2 ⟨strand, hl⟩
  | none =>
    refine absurd ?_ h
    show ((c.log room).threads.get? root).getD .empty = .empty
    rw [hl, Option.getD_none]

/-! ## One message more -/

theorem append_of_contains {m : Message} (h : c.events.contains m.id = true) :
    c.append m = (c, none) := by
  simp [append, h]

section

variable {c} {m : Message} (h : c.get? m.id = none)

include h

theorem append_eq : c.append m = ({ c with
    events := c.events.insert m.id
      ⟨m, (c.placing m).position, (c.placing m).scope, c.judge.verdict m⟩
    rooms := c.rooms.insert m.room
      ((c.log m.room).add (c.placing m).scope.thread (c.placing m).position m.id)
    nextArrival := c.nextArrival + 1 }, some (c.placing m)) := by
  have hc : c.events.contains m.id = false := Table.contains_eq_false_iff.2 h
  simp only [append, hc, Bool.false_eq_true, if_false]
  rfl

theorem get?_append_self : (c.append m).1.get? m.id =
    some ⟨m, (c.placing m).position, (c.placing m).scope, c.judge.verdict m⟩ := by
  rw [append_eq h]
  exact Table.get?_insert_self _ _ _

theorem get?_append_of_ne {id : EventId} (hne : id ≠ m.id) :
    (c.append m).1.get? id = c.get? id := by
  rw [append_eq h]
  exact Table.get?_insert_of_ne _ _ hne

theorem forall_append {P : EventId → Indexed → Prop}
    (hnew : P m.id ⟨m, (c.placing m).position, (c.placing m).scope, c.judge.verdict m⟩)
    (hold : ∀ id e, c.get? id = some e → P id e) {id : EventId} {e : Indexed}
    (he : (c.append m).1.get? id = some e) : P id e := by
  by_cases hid : id = m.id
  · subst hid
    rw [get?_append_self h] at he
    cases he
    exact hnew
  · rw [get?_append_of_ne h hid] at he
    exact hold id e he

theorem log_append (room : RoomId) : (c.append m).1.log room =
    if room = m.room then
      (c.log m.room).add (c.placing m).scope.thread (c.placing m).position m.id
    else c.log room := by
  rw [append_eq h]
  simp only [log]
  split
  next e =>
    rw [e, Table.get?_insert_self]
    rfl
  next e => rw [Table.get?_insert_of_ne _ _ e]

theorem strand_append (hs : (c.scopeFor m).room = m.room) (s : Scope) :
    (c.append m).1.strand s =
      if s = c.scopeFor m then (c.strand s).add ⟨m.sequence, c.nextArrival⟩ m.id
      else c.strand s := by
  obtain ⟨room, thread⟩ := s
  simp only [strand, log_append h]
  by_cases e : room = m.room
  · subst e
    rw [if_pos rfl, RoomLog.strand_add]
    by_cases e' : thread = (c.placing m).scope.thread
    · have : (⟨m.room, thread⟩ : Scope) = c.scopeFor m := by
        rw [e', ← hs]
        rfl
      rw [if_pos e', if_pos this, e']
      rfl
    · have : (⟨m.room, thread⟩ : Scope) ≠ c.scopeFor m :=
        fun k => e' (congrArg Scope.thread k)
      rw [if_neg e', if_neg this]
  · have : (⟨room, thread⟩ : Scope) ≠ c.scopeFor m :=
      fun k => e ((congrArg Scope.room k).trans hs)
    rw [if_neg e, if_neg this]

end

/-! ## The events and the strands tell one story -/

structure Sound : Prop where
  named : ∀ {id e}, c.get? id = some e → e.message.id = id
  housed : ∀ {id e}, c.get? id = some e → e.scope.room = e.message.room
  numbered : ∀ {id e}, c.get? id = some e → e.position.sequence = e.message.sequence
  arrived : ∀ {id e}, c.get? id = some e → e.position.arrival < c.nextArrival
  judged : ∀ {id e}, c.get? id = some e → e.verdict = c.judge.verdict e.message
  stands : ∀ {id e}, c.get? id = some e →
    (c.strand e.scope).entries.get? e.position = some id
  indexed : ∀ {s p id}, (c.strand s).entries.get? p = some id →
    ∃ e, c.get? id = some e ∧ e.scope = s ∧ e.position = p
  threaded : ∀ {room root}, c.hasThread room root = true →
    ∃ p id, (c.strand (.ofThread room root)).entries.get? p = some id

theorem sound_empty (judge : Judge) : (empty judge).Sound where
  named h := by cases h
  housed h := by cases h
  numbered h := by cases h
  arrived h := by cases h
  judged h := by cases h
  stands h := by cases h
  indexed {s p id} h := by
    obtain ⟨room, thread⟩ := s
    cases thread <;> cases h
  threaded h := by cases h

variable {c}

theorem Sound.scopeFor_room (hc : c.Sound) (m : Message) : (c.scopeFor m).room = m.room := by
  unfold scopeFor
  cases m.content with
  | plain | reply | threadReply | state | other => rfl
  | edit target | reaction target =>
    dsimp only
    cases he : c.get? target with
    | none => rfl
    | some e =>
      dsimp only
      split
      next hr => exact (hc.housed he).trans hr
      next => rfl

section

variable {m : Message}

/-- The position of a new message is taken in no strand. -/
theorem Sound.position_fresh (hc : c.Sound) (s : Scope) :
    (c.strand s).entries.get? ⟨m.sequence, c.nextArrival⟩ = none := by
  cases hp : (c.strand s).entries.get? ⟨m.sequence, c.nextArrival⟩ with
  | none => rfl
  | some id =>
    obtain ⟨e, he, -, hpos⟩ := hc.indexed hp
    have := hc.arrived he
    rw [hpos] at this
    exact absurd this (Nat.lt_irrefl _)

theorem Sound.stands_append (hc : c.Sound) (h : c.get? m.id = none) {s : Scope} {p : Position}
    {id : EventId} (hp : (c.strand s).entries.get? p = some id) :
    ((c.append m).1.strand s).entries.get? p = some id := by
  rw [strand_append h (hc.scopeFor_room m)]
  split
  next =>
    refine (Table.get?_insert_of_ne _ _ fun e => ?_).trans hp
    rw [e, hc.position_fresh] at hp
    cases hp
  next => exact hp

theorem Sound.stands_append_self (hc : c.Sound) (h : c.get? m.id = none) :
    ((c.append m).1.strand (c.scopeFor m)).entries.get? ⟨m.sequence, c.nextArrival⟩ =
      some m.id := by
  rw [strand_append h (hc.scopeFor_room m), if_pos rfl]
  exact Table.get?_insert_self _ _ _

theorem Sound.of_stands_append (hc : c.Sound) (h : c.get? m.id = none) {s : Scope} {p : Position}
    {id : EventId} (hp : ((c.append m).1.strand s).entries.get? p = some id) :
    (c.strand s).entries.get? p = some id ∨
      s = c.scopeFor m ∧ p = ⟨m.sequence, c.nextArrival⟩ ∧ id = m.id := by
  rw [strand_append h (hc.scopeFor_room m)] at hp
  split at hp
  next e =>
    by_cases hpos : p = ⟨m.sequence, c.nextArrival⟩
    · right
      refine ⟨e, hpos, ?_⟩
      rw [hpos] at hp
      exact Option.some.inj (hp.symm.trans (Table.get?_insert_self _ _ _))
    · left
      exact (Table.get?_insert_of_ne _ _ hpos).symm.trans hp
  next => exact .inl hp

theorem Sound.append (hc : c.Sound) (m : Message) : (c.append m).1.Sound := by
  cases h : c.get? m.id with
  | some e =>
    rw [append_of_contains c (Table.contains_iff.2 ⟨e, h⟩)]
    exact hc
  | none =>
    have hself := get?_append_self h
    have hother : ∀ {id}, id ≠ m.id → (c.append m).1.get? id = c.get? id := get?_append_of_ne h
    have hold : ∀ {id e}, c.get? id = some e → id ≠ m.id := by
      rintro id e he rfl
      rw [h] at he
      cases he
    have hnext : (c.append m).1.nextArrival = c.nextArrival + 1 := by rw [append_eq h]
    have hjudge : (c.append m).1.judge = c.judge := by rw [append_eq h]
    constructor
    · exact forall_append h (P := fun id e => e.message.id = id) rfl fun _ _ => hc.named
    · exact forall_append h (P := fun _ e => e.scope.room = e.message.room)
        (hc.scopeFor_room m) fun _ _ => hc.housed
    · exact forall_append h (P := fun _ e => e.position.sequence = e.message.sequence) rfl
        fun _ _ => hc.numbered
    · rw [hnext]
      exact forall_append h (P := fun _ e => e.position.arrival < c.nextArrival + 1)
        (Nat.lt_succ_self _) fun _ _ he => Nat.lt_succ_of_lt (hc.arrived he)
    · rw [hjudge]
      exact forall_append h (P := fun _ e => e.verdict = c.judge.verdict e.message) rfl
        fun _ _ => hc.judged
    · exact forall_append h
        (P := fun id e => ((c.append m).1.strand e.scope).entries.get? e.position = some id)
        (hc.stands_append_self h) fun _ _ he => hc.stands_append h (hc.stands he)
    · intro s p id hp
      rcases hc.of_stands_append h hp with hp | ⟨rfl, rfl, rfl⟩
      · obtain ⟨e, he, hs, hpos⟩ := hc.indexed hp
        exact ⟨e, (hother (hold he)).trans he, hs, hpos⟩
      · exact ⟨_, hself, rfl, rfl⟩
    · intro room root ht
      rw [hasThread_eq, log_append h] at ht
      have old : c.hasThread room root = true →
          ∃ p id, ((c.append m).1.strand (.ofThread room root)).entries.get? p = some id := by
        intro ht
        obtain ⟨p, id, hp⟩ := hc.threaded ht
        exact ⟨p, id, hc.stands_append h hp⟩
      split at ht
      next e =>
        subst e
        rcases RoomLog.contains_threads_add _ _ ht with he | ht
        · have hscope : (.ofThread m.room root : Scope) = c.scopeFor m := by
            have hr := hc.scopeFor_room m
            have ht : (c.scopeFor m).thread = some root := he
            cases hsf : c.scopeFor m with
            | mk room thread =>
              rw [hsf] at hr ht
              cases hr
              cases ht
              rfl
          rw [hscope]
          exact ⟨_, _, hc.stands_append_self h⟩
        · exact old ((c.hasThread_eq _ _).trans ht)
      next => exact old ((c.hasThread_eq _ _).trans ht)

theorem get?_append_of_some {id : EventId} {e : Indexed} (he : c.get? id = some e) :
    (c.append m).1.get? id = some e := by
  cases h : c.get? m.id with
  | some e' =>
    rw [append_of_contains c (Table.contains_iff.2 ⟨e', h⟩)]
    exact he
  | none =>
    refine (get?_append_of_ne h fun hid => ?_).trans he
    rw [hid, h] at he
    cases he

end

/-! ## Gaps -/

theorem log_openGap (room : RoomId) (roots : List EventId) (q : Nat) (room' : RoomId) :
    (c.openGap room roots q).log room' =
      if room' = room then (c.log room).openGap roots q else c.log room' := by
  simp only [log, openGap]
  split
  next e =>
    rw [e, Table.get?_insert_self]
    rfl
  next e => rw [Table.get?_insert_of_ne _ _ e]

theorem log_closeGap (room : RoomId) (q : Nat) (room' : RoomId) :
    (c.closeGap room q).1.log room' =
      if room' = room then (c.log room).closeGap q else c.log room' := by
  by_cases e : room' = room
  · subst e
    rw [if_pos rfl]
    simp only [log, closeGap]
    cases h : c.rooms.get? room' with
    | none => simp only [h]; rfl
    | some log => simp only [Table.get?_insert_self]; rfl
  · rw [if_neg e]
    simp only [log, closeGap]
    cases h : c.rooms.get? room with
    | none => rfl
    | some log => simp only [Table.get?_insert_of_ne _ _ e]

theorem get?_closeGap (room : RoomId) (q : Nat) (id : EventId) :
    (c.closeGap room q).1.get? id = c.get? id := by
  unfold closeGap
  cases c.rooms.get? room <;> rfl

theorem entries_openGap (room : RoomId) (roots : List EventId) (q : Nat) (s : Scope) :
    ((c.openGap room roots q).strand s).entries = (c.strand s).entries := by
  simp only [strand, log_openGap]
  split
  next e => rw [RoomLog.entries_openGap, e]
  next => rfl

theorem entries_closeGap (room : RoomId) (q : Nat) (s : Scope) :
    ((c.closeGap room q).1.strand s).entries = (c.strand s).entries := by
  simp only [strand, log_closeGap]
  split
  next e => rw [RoomLog.entries_closeGap, e]
  next => rfl

theorem Sound.congr {c' : Chronicle} (hc : c.Sound) (hj : c'.judge = c.judge)
    (he : ∀ id, c'.get? id = c.get? id) (hn : c'.nextArrival = c.nextArrival)
    (hs : ∀ s, (c'.strand s).entries = (c.strand s).entries)
    (ht : ∀ room root, c'.hasThread room root = c.hasThread room root) : c'.Sound where
  named h := hc.named (he _ ▸ h)
  housed h := hc.housed (he _ ▸ h)
  numbered h := hc.numbered (he _ ▸ h)
  arrived h := hn ▸ hc.arrived (he _ ▸ h)
  judged h := hj ▸ hc.judged (he _ ▸ h)
  stands h := by rw [hs]; exact hc.stands (he _ ▸ h)
  indexed {s p id} h := by
    rw [hs] at h
    rw [he]
    exact hc.indexed h
  threaded {room root} h := by
    rw [hs]
    exact hc.threaded (ht room root ▸ h)

theorem Sound.openGap (hc : c.Sound) (room : RoomId) (roots : List EventId) (q : Nat) :
    (c.openGap room roots q).Sound := by
  refine hc.congr rfl (fun _ => rfl) rfl (entries_openGap room roots q) ?_
  intro room' root
  simp only [hasThread_eq, log_openGap]
  split
  next e =>
    subst e
    simp [RoomLog.openGap, Table.contains, Table.get?_mapValues]
  next => rfl

theorem Sound.closeGap (hc : c.Sound) (room : RoomId) (q : Nat) :
    (c.closeGap room q).1.Sound := by
  have hsame : (c.closeGap room q).1.judge = c.judge ∧
      (c.closeGap room q).1.nextArrival = c.nextArrival := by
    unfold Chronicle.closeGap
    cases c.rooms.get? room <;> exact ⟨rfl, rfl⟩
  refine hc.congr hsame.1 (get?_closeGap room q) hsame.2 (entries_closeGap room q) ?_
  intro room' root
  simp only [hasThread_eq, log_closeGap]
  split
  next e =>
    subst e
    simp [RoomLog.closeGap, Table.contains, Table.get?_mapValues]
  next => rfl

/-! ## Batches -/

def Has (c : Chronicle) (p : Placed) : Prop :=
  ∃ e, c.get? p.id = some e ∧ e.scope = p.scope ∧ e.position = p.position

theorem has_append {m : Message} {p : Placed} (h : (c.append m).2 = some p) :
    (c.append m).1.Has p := by
  cases hm : c.get? m.id with
  | some e =>
    rw [append_of_contains c (Table.contains_iff.2 ⟨e, hm⟩)] at h
    cases h
  | none =>
    have := get?_append_self hm
    rw [append_eq hm] at h
    cases h
    exact ⟨_, this, rfl, rfl⟩

theorem Has.append {p : Placed} (h : c.Has p) (m : Message) : (c.append m).1.Has p := by
  obtain ⟨e, he, hs⟩ := h
  exact ⟨e, get?_append_of_some he, hs⟩

theorem appendAll_keeps {P : Chronicle → Prop} {room : RoomId} {ms : List Message}
    (step : ∀ c, ∀ m ∈ ms, m.room = room → P c → P (c.append m).1) (h : P c) :
    P (c.appendAll room ms).1 := by
  induction ms generalizing c with
  | nil => exact h
  | cons m ms ih =>
    have rest : ∀ c, ∀ m ∈ ms, m.room = room → P c → P (c.append m).1 :=
      fun c m' hm' => step c m' (List.mem_cons_of_mem _ hm')
    simp only [appendAll]
    split
    next hr => exact ih rest (step c m List.mem_cons_self hr h)
    next => exact ih rest h

theorem has_appendAll {room : RoomId} {ms : List Message} :
    ∀ p ∈ (c.appendAll room ms).2, (c.appendAll room ms).1.Has p := by
  induction ms generalizing c with
  | nil =>
    intro p hp
    cases hp
  | cons m ms ih =>
    intro p hp
    simp only [appendAll] at hp ⊢
    split at hp
    next hr =>
      rw [if_pos hr]
      rcases List.mem_append.1 hp with hp | hp
      · have hp : (c.append m).2 = some p := by simpa using hp
        exact appendAll_keeps (P := fun c => c.Has p) (fun _ m _ _ h => h.append m)
          (has_append hp)
      · exact ih p hp
    next hr =>
      rw [if_neg hr]
      exact ih p hp

theorem exists_placed {room : RoomId} {ms : List Message} {m : Message} (hm : m ∈ ms)
    (hr : m.room = room) (hn : c.get? m.id = none) :
    ∃ p ∈ (c.appendAll room ms).2, p.id = m.id := by
  induction ms generalizing c with
  | nil => cases hm
  | cons m' ms ih =>
    simp only [appendAll]
    split
    next =>
      by_cases hid : m.id = m'.id
      · refine ⟨c.placing m', List.mem_append_left _ ?_, hid.symm⟩
        rw [append_eq (hid ▸ hn)]
        exact List.mem_singleton.2 rfl
      · have hn' : (c.append m').1.get? m.id = none := by
          cases hg : c.get? m'.id with
          | some e =>
            rw [append_of_contains c (Table.contains_iff.2 ⟨e, hg⟩)]
            exact hn
          | none => exact (get?_append_of_ne hg hid).trans hn
        obtain ⟨p, hp, he⟩ := ih ((List.mem_cons.1 hm).resolve_left fun e => hid (e ▸ rfl)) hn'
        exact ⟨p, List.mem_append_right _ hp, he⟩
    next hne => exact ih ((List.mem_cons.1 hm).resolve_left fun e => hne (e ▸ hr)) hn

/-- A batch is indexed message by message; a gap may be recorded at the end. -/
theorem ingest_cases (room : RoomId) (batch : List Message) (limited : Bool) :
    (c.ingest room batch limited).2 = (c.appendAll room batch).2 ∧
      ((c.ingest room batch limited).1 = (c.appendAll room batch).1 ∨
        ∃ roots, ∃ p ∈ (c.appendAll room batch).2,
          (c.ingest room batch limited).1 =
            (c.appendAll room batch).1.openGap room roots p.position.sequence) := by
  simp only [ingest]
  split
  next first hmin =>
    obtain ⟨p, hp, rfl⟩ := List.mem_map.1 (List.min?_mem hmin)
    exact ⟨rfl, .inr ⟨_, p, hp, rfl⟩⟩
  next => exact ⟨rfl, .inl rfl⟩

theorem has_ingest {room : RoomId} {batch : List Message} {limited : Bool} :
    ∀ p ∈ (c.ingest room batch limited).2, (c.ingest room batch limited).1.Has p := by
  intro p hp
  obtain ⟨he, hc | ⟨roots, q, -, hc⟩⟩ := c.ingest_cases room batch limited
  · rw [hc]
    exact has_appendAll p (he ▸ hp)
  · rw [hc]
    exact has_appendAll p (he ▸ hp)

theorem Sound.ingest (hc : c.Sound) (room : RoomId) (batch : List Message) (limited : Bool) :
    (c.ingest room batch limited).1.Sound := by
  have h : (c.appendAll room batch).1.Sound :=
    appendAll_keeps (fun _ m _ _ h => h.append m) hc
  obtain ⟨-, he | ⟨roots, q, -, he⟩⟩ := c.ingest_cases room batch limited
  · rw [he]
    exact h
  · rw [he]
    exact h.openGap room roots _

/-! ## Forgetting -/

theorem log_forget (room room' : RoomId) :
    (c.forget room).1.log room' = if room' = room then .empty else c.log room' := by
  unfold forget
  split
  next =>
    simp only [log]
    split
    next e =>
      rw [e, Table.get?_erase_self]
      rfl
    next e => rw [Table.get?_erase_of_ne _ e]
  next h =>
    split
    next e =>
      rw [Bool.not_eq_true, Table.contains_eq_false_iff] at h
      simp only [log, e, h]
      rfl
    next => rfl

theorem strand_forget (room : RoomId) (s : Scope) :
    (c.forget room).1.strand s = if s.room = room then .empty else c.strand s := by
  simp only [strand, log_forget]
  split
  next => cases s.thread <;> rfl
  next => rfl

theorem Sound.get?_forget (hc : c.Sound) (room : RoomId) (id : EventId) :
    (c.forget room).1.get? id = (c.get? id).filter fun e => e.message.room != room := by
  unfold forget
  split
  next => exact Table.get?_filter _ _ _
  next h =>
    show c.get? id = _
    cases he : c.get? id with
    | none => rfl
    | some e =>
      have hr : e.message.room ≠ room := by
        rintro rfl
        have hp := hc.stands he
        have hl : c.log e.scope.room = .empty := by
          rw [Bool.not_eq_true, Table.contains_eq_false_iff] at h
          simp only [log, hc.housed he, h]
          rfl
        rw [strand, hl] at hp
        cases ht : e.scope.thread <;> rw [ht] at hp <;> cases hp
      simp only [Option.filter_some, bne_iff_ne.2 hr, if_true]

theorem Sound.forget (hc : c.Sound) (room : RoomId) : (c.forget room).1.Sound := by
  have hsame : (c.forget room).1.judge = c.judge ∧
      (c.forget room).1.nextArrival = c.nextArrival := by
    unfold Chronicle.forget
    split
    · exact ⟨rfl, rfl⟩
    · exact ⟨rfl, rfl⟩
  have old : ∀ {id e}, (c.forget room).1.get? id = some e →
      c.get? id = some e ∧ e.message.room ≠ room := by
    intro id e he
    rw [hc.get?_forget, Option.filter_eq_some_iff] at he
    exact ⟨he.1, bne_iff_ne.1 he.2⟩
  constructor
  · exact fun he => hc.named (old he).1
  · exact fun he => hc.housed (old he).1
  · exact fun he => hc.numbered (old he).1
  · exact fun he => hsame.2 ▸ hc.arrived (old he).1
  · exact fun he => hsame.1 ▸ hc.judged (old he).1
  · intro id e he
    rw [strand_forget, if_neg fun hr => (old he).2 ((hc.housed (old he).1).symm.trans hr)]
    exact hc.stands (old he).1
  · intro s p id hp
    rw [strand_forget] at hp
    split at hp
    next => cases hp
    next hr =>
      obtain ⟨e, he, hs, hpos⟩ := hc.indexed hp
      refine ⟨e, ?_, hs, hpos⟩
      rw [hc.get?_forget, he]
      have hn : e.message.room ≠ room := by
        rw [← hc.housed he, hs]
        exact hr
      simp [hn]
  · intro room' root ht
    rw [hasThread_eq, log_forget] at ht
    split at ht
    next => cases ht
    next hr =>
      have hs : (Scope.ofThread room' root).room ≠ room := hr
      rw [strand_forget, if_neg hs]
      exact hc.threaded ((c.hasThread_eq _ _).trans ht)

/-! ## Listing a strand -/

theorem Sound.mem_after (hc : c.Sound) {s : Scope} {cursor : Option Cursor} {id : EventId} :
    id ∈ (c.strand s).after cursor ↔
      ∃ e, c.get? id = some e ∧ e.scope = s ∧ cursor.all (·.isBefore e.position) = true := by
  have hvalues : ∀ (t : Table Position EventId), id ∈ t.values ↔ ∃ p, t.get? p = some id := by
    intro t
    simp only [Table.values, List.mem_map, Prod.exists, exists_eq_right, Table.get?_eq_some_iff]
  have hstands : ∀ {p}, (c.strand s).entries.get? p = some id ↔
      ∃ e, c.get? id = some e ∧ e.scope = s ∧ e.position = p := by
    intro p
    constructor
    · exact hc.indexed
    · rintro ⟨e, he, rfl, rfl⟩
      exact hc.stands he
  cases cursor with
  | none =>
    simp only [Strand.after, hvalues, hstands, Option.all_none, and_true]
    constructor
    · rintro ⟨p, e, he, hs, -⟩
      exact ⟨e, he, hs⟩
    · rintro ⟨e, he, hs⟩
      exact ⟨_, e, he, hs, rfl⟩
  | some k =>
    simp only [Strand.after, hvalues, Table.get?_filter, Option.filter_eq_some_iff, hstands,
      Option.all_some]
    constructor
    · rintro ⟨p, ⟨e, he, hs, rfl⟩, hk⟩
      exact ⟨e, he, hs, hk⟩
    · rintro ⟨e, he, hs, hk⟩
      exact ⟨_, ⟨e, he, hs, rfl⟩, hk⟩

theorem Sound.nodup_after (hc : c.Sound) (s : Scope) (cursor : Option Cursor) :
    ((c.strand s).after cursor).Nodup := by
  have hentries : (c.strand s).entries.values.Nodup := by
    unfold Table.values
    rw [List.Nodup, List.pairwise_map]
    refine (c.strand s).entries.rising.imp_of_mem fun {p p'} hp hp' hbefore he => ?_
    obtain ⟨e, hget, -, hpos⟩ := hc.indexed ((Table.get?_eq_some_iff _).2 hp)
    obtain ⟨e', hget', -, hpos'⟩ := hc.indexed ((Table.get?_eq_some_iff _).2 hp')
    rw [he, hget'] at hget
    cases hget
    exact ne_of_before hbefore (hpos.symm.trans hpos')
  cases cursor with
  | none => exact hentries
  | some k =>
    refine hentries.sublist ?_
    exact List.Sublist.map _ List.filter_sublist

/-! ## Threads -/

theorem Sound.hasThread_iff (hc : c.Sound) {room : RoomId} {root : EventId} :
    c.hasThread room root = true ↔ ∃ id e, c.get? id = some e ∧ e.scope = .ofThread room root := by
  constructor
  · intro h
    obtain ⟨p, id, hp⟩ := hc.threaded h
    obtain ⟨e, he, hs, -⟩ := hc.indexed hp
    exact ⟨id, e, he, hs⟩
  · rintro ⟨id, e, he, hs⟩
    have hp := hc.stands he
    rw [hs] at hp
    refine c.hasThread_of_strand_ne_empty fun hempty => ?_
    rw [hempty] at hp
    cases hp

theorem mem_threads {room : RoomId} {root : EventId} :
    root ∈ c.threads room ↔ c.hasThread room root = true := by
  unfold threads hasThread
  cases c.rooms.get? room with
  | none => simp
  | some log =>
    dsimp only
    rw [Table.contains_iff, List.mem_map]
    constructor
    · rintro ⟨k, hk, rfl⟩
      obtain ⟨v, hv⟩ := Table.mem_keys.1 hk
      obtain ⟨e, he, heq⟩ := List.mem_map.1 (Table.mem_of_get?_ofList hv)
      cases heq
      exact ⟨_, (Table.get?_eq_some_iff _).2 he⟩
    · rintro ⟨strand, hs⟩
      have hentry : ((c.anchor root strand, root), ()) ∈
          log.threads.entries.map fun e => ((c.anchor e.1 e.2, e.1), ()) :=
        List.mem_map.2 ⟨(root, strand), (Table.get?_eq_some_iff _).1 hs, rfl⟩
      obtain ⟨v, hv, -⟩ := Table.empty.get?_insertAll_of_mem ⟨_, hentry, rfl⟩
      exact ⟨_, Table.mem_keys.2 ⟨v, hv⟩, rfl⟩

theorem Sound.mem_scopes (hc : c.Sound) {id : EventId} {e : Indexed} (he : c.get? id = some e) :
    e.scope ∈ c.scopes e.scope.room := by
  cases hs : e.scope with
  | mk room thread =>
    cases thread with
    | none => exact List.mem_cons_self
    | some root =>
      have hthread : c.hasThread room root = true := hc.hasThread_iff.2 ⟨id, e, he, hs⟩
      exact List.mem_cons_of_mem _ (List.mem_map_of_mem (mem_threads.2 hthread))

def standing (c : Chronicle) (room : RoomId) (root : EventId) : Option Position :=
  c.anchor root (c.strand (.ofThread room root))

/-- Threads are listed in the order in which they stand, and by name where they stand level. -/
theorem rising_standing (c : Chronicle) (room : RoomId) :
    (c.threads room).Pairwise fun root root' =>
      before (c.standing room root, root) (c.standing room root', root') := by
  unfold threads
  cases hr : c.rooms.get? room with
  | none => exact .nil
  | some log =>
    dsimp only
    rw [List.pairwise_map]
    have hkey : ∀ k ∈ (Table.ofList (log.threads.entries.map
        fun e => ((c.anchor e.1 e.2, e.1), ()))).keys, (c.standing room k.2, k.2) = k := by
      intro k hk
      obtain ⟨v, hv⟩ := Table.mem_keys.1 hk
      obtain ⟨⟨root, strand⟩, he, heq⟩ := List.mem_map.1 (Table.mem_of_get?_ofList hv)
      cases heq
      have hstrand : c.strand (.ofThread room root) = strand := by
        show (((c.rooms.get? room).getD .empty).threads.get? root).getD .empty = strand
        rw [hr, Option.getD_some, (Table.get?_eq_some_iff _).2 he, Option.getD_some]
      rw [standing, hstrand]
    refine List.Pairwise.imp_of_mem (R := before) ?_ ?_
    · intro k k' hk hk' h
      rw [hkey k hk, hkey k' hk']
      exact h
    · unfold Table.keys
      rw [List.pairwise_map]
      exact Table.rising _

theorem nodup_threads (c : Chronicle) (room : RoomId) : (c.threads room).Nodup := by
  refine (c.rising_standing room).imp fun hbefore he => ?_
  exact ne_of_before hbefore (by rw [he])

theorem room_of_mem_scopes {room : RoomId} {s : Scope} (h : s ∈ c.scopes room) :
    s.room = room := by
  rcases List.mem_cons.1 h with rfl | h
  · rfl
  · obtain ⟨root, -, rfl⟩ := List.mem_map.1 h
    rfl

theorem nodup_scopes (c : Chronicle) (room : RoomId) : (c.scopes room).Nodup := by
  refine List.nodup_cons.2 ⟨?_, ?_⟩
  · intro h
    obtain ⟨root, -, he⟩ := List.mem_map.1 h
    cases he
  · rw [List.Nodup, List.pairwise_map]
    refine (c.nodup_threads room).imp ?_
    rintro root root' hne he
    cases he
    exact hne rfl

/-! ## The last message -/

/-- The last entry among those of a strand that pass a test is an indexed message, and no other
that passes comes after it. -/
theorem Sound.last_filter (hc : c.Sound) {s : Scope} {keep : Position → EventId → Bool}
    {e : Indexed} (h : (((c.strand s).entries.filter keep).last?.map (·.2)).bind c.get? = some e) :
    c.get? e.message.id = some e ∧ e.scope = s ∧ keep e.position e.message.id = true ∧
      ∀ {id e'}, c.get? id = some e' → e'.scope = s → keep e'.position id = true →
        ¬ before e.position e'.position := by
  simp only [Option.bind_eq_some_iff, Option.map_eq_some_iff] at h
  obtain ⟨id, ⟨⟨p, id'⟩, hlast, rfl⟩, he⟩ := h
  obtain ⟨hp, hmax⟩ := Table.last?_eq_some_iff.1 hlast
  rw [Table.get?_filter, Option.filter_eq_some_iff] at hp
  obtain ⟨e', he', hs, hpos⟩ := hc.indexed hp.1
  cases he.symm.trans he'
  have hid := hc.named he
  refine ⟨hid.symm ▸ he, hs, by rw [hpos, hid]; exact hp.2, fun {id₁ e₁} h₁ hs₁ hk => ?_⟩
  rw [hpos]
  refine hmax e₁.position id₁ ?_
  rw [Table.get?_filter, Option.filter_eq_some_iff]
  exact ⟨hs₁ ▸ hc.stands h₁, hk⟩

theorem Sound.last_filter_none (hc : c.Sound) {s : Scope} {keep : Position → EventId → Bool}
    (h : (((c.strand s).entries.filter keep).last?.map (·.2)).bind c.get? = none) {id : EventId}
    {e : Indexed} (he : c.get? id = some e) (hs : e.scope = s) :
    keep e.position id = false := by
  cases hlast : ((c.strand s).entries.filter keep).last? with
  | none =>
    have := Table.last?_eq_none_iff.1 hlast e.position
    rw [Table.get?_filter, ← hs, hc.stands he] at this
    simpa using this
  | some p =>
    obtain ⟨hp, -⟩ := Table.last?_eq_some_iff.1 hlast
    rw [Table.get?_filter, Option.filter_eq_some_iff] at hp
    obtain ⟨e', he', -⟩ := hc.indexed hp.1
    rw [hlast] at h
    simp [he'] at h

/-- A message of a strand that passes a test, and that none that passes comes after, is the last
one. -/
theorem Sound.last_filter_eq_of_last (hc : c.Sound) {keep : Position → EventId → Bool}
    {e : Indexed} (he : c.get? e.message.id = some e) (hk : keep e.position e.message.id = true)
    (hlast : ∀ id e', c.get? id = some e' → e'.scope = e.scope → keep e'.position id = true →
      ¬ before e.position e'.position) :
    (((c.strand e.scope).entries.filter keep).last?.map (·.2)).bind c.get? = some e := by
  cases h : (((c.strand e.scope).entries.filter keep).last?.map (·.2)).bind c.get? with
  | none => exact absurd hk (by simp [hc.last_filter_none h he rfl])
  | some head =>
    obtain ⟨hhead, hs, hkeep, hmax⟩ := hc.last_filter h
    have hpos : head.position = e.position :=
      connected (hmax he rfl hk) (hlast _ _ hhead hs hkeep)
    have hstands := hc.stands hhead
    rw [hs, hpos, hc.stands he] at hstands
    rw [← Option.some.inj hstands, he] at hhead
    exact hhead.symm

theorem latest_eq_filter (s : Scope) : c.latest s =
    (((c.strand s).entries.filter fun _ _ => true).last?.map (·.2)).bind c.get? := by
  rw [latest_eq, Strand.latest]
  congr 3
  refine Table.ext_get? fun k => ?_
  rw [Table.get?_filter]
  cases (c.strand s).entries.get? k <;> rfl

theorem Sound.latest_eq_some (hc : c.Sound) {s : Scope} {e : Indexed} (h : c.latest s = some e) :
    c.get? e.message.id = some e ∧ e.scope = s ∧
      ∀ {id e'}, c.get? id = some e' → e'.scope = s → ¬ before e.position e'.position := by
  rw [latest_eq_filter] at h
  obtain ⟨he, hs, -, hmax⟩ := hc.last_filter h
  exact ⟨he, hs, fun h' hs' => hmax h' hs' rfl⟩

theorem Sound.latest_eq_none (hc : c.Sound) {s : Scope} (h : c.latest s = none) {id : EventId}
    {e : Indexed} (he : c.get? id = some e) : e.scope ≠ s := by
  intro hs
  rw [latest_eq_filter] at h
  cases hc.last_filter_none h he hs

theorem Sound.latest_eq_of_last (hc : c.Sound) {e : Indexed} (he : c.get? e.message.id = some e)
    (hlast : ∀ id e', c.get? id = some e' → e'.scope = e.scope →
      ¬ before e.position e'.position) : c.latest e.scope = some e := by
  rw [latest_eq_filter]
  exact hc.last_filter_eq_of_last he rfl fun id e' h hs _ => hlast id e' h hs

/-- The floor of a sequence is a message of the scope at or below it, and no such message comes
later. -/
theorem Sound.floor_eq_some (hc : c.Sound) {s : Scope} {q : Nat} {e : Indexed}
    (h : c.floor s q = some e) :
    c.get? e.message.id = some e ∧ e.scope = s ∧ e.position.sequence ≤ q ∧
      ∀ {id e'}, c.get? id = some e' → e'.scope = s → e'.position.sequence ≤ q →
        ¬ before e.position e'.position := by
  rw [floor_eq] at h
  obtain ⟨he, hs, hq, hmax⟩ := hc.last_filter h
  exact ⟨he, hs, of_decide_eq_true hq, fun h' hs' hq' => hmax h' hs' (decide_eq_true hq')⟩

theorem Sound.floor_eq_of_last (hc : c.Sound) {q : Nat} {e : Indexed}
    (he : c.get? e.message.id = some e) (hq : e.position.sequence ≤ q)
    (hlast : ∀ id e', c.get? id = some e' → e'.scope = e.scope → e'.position.sequence ≤ q →
      ¬ before e.position e'.position) : c.floor e.scope q = some e := by
  rw [floor_eq]
  exact hc.last_filter_eq_of_last he (decide_eq_true hq) fun id e' h hs hq' =>
    hlast id e' h hs (of_decide_eq_true hq')

end Chronicle

end ReadTracking
