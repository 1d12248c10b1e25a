import ReadTracking.Proofs.Queueing
import ReadTracking.Proofs.Scanning

/-!
# Marking a room as read

Marking a room as read moves the personal marker of every scope that has messages and is not read
to its end, all of them with one write, and queues one receipt for each.  Afterwards nothing in the
room is unread.  Only a gap in a main timeline of which no message is indexed stays: there is no
message to which a marker could be set.
-/

set_option autoImplicit false

namespace ReadTracking

open KeyOrder

/-! ## The end of a scope -/

namespace Chronicle

variable {c : Chronicle} {s : Scope}

/-- An update reads its scope to the end: it names the last message, and it reaches that message
and the newest gap. -/
def IsEnd (c : Chronicle) (u : Update) : Prop :=
  ∃ e, c.get? u.event = some e ∧ e.scope = u.scope ∧
    (∀ id e', c.get? id = some e' → e'.scope = u.scope → ¬ before e.position e'.position) ∧
    u.sequence = (c.gaps u.scope).foldr max e.position.sequence

theorem foldr_max_le_iff (l : List Nat) (q n : Nat) :
    l.foldr max q ≤ n ↔ q ≤ n ∧ ∀ g ∈ l, g ≤ n := by
  induction l with
  | nil => simp
  | cons g l ih => rw [List.foldr_cons, List.forall_mem_cons, Nat.max_le, ih, and_left_comm]

theorem foldr_max_gaps (c : Chronicle) (s : Scope) (q : Nat) : (c.gaps s).foldr max q =
    match c.lastGap s with
    | some gap => max gap q
    | none => q := by
  have hmem : ∀ g, g ∈ c.gaps s ↔ ∃ v, (c.strand s).gaps.get? g = some v := fun g => Table.mem_keys
  rw [lastGap_eq, Strand.lastGap]
  cases hlast : (c.strand s).gaps.last? with
  | none =>
    have hnil : c.gaps s = [] := by
      apply List.eq_nil_iff_forall_not_mem.2
      intro g hg
      obtain ⟨v, hv⟩ := (hmem g).1 hg
      cases (Table.last?_eq_none_iff.1 hlast g).symm.trans hv
    rw [hnil]
    rfl
  | some entry =>
    obtain ⟨gap, v⟩ := entry
    obtain ⟨hgap, hnewest⟩ := Table.last?_eq_some_iff.1 hlast
    apply Nat.le_antisymm
    · rw [foldr_max_le_iff]
      constructor
      · exact Nat.le_max_right _ _
      · intro g hg
        obtain ⟨v', hv'⟩ := (hmem g).1 hg
        have hle : g ≤ gap := Nat.le_of_not_lt (hnewest g v' hv')
        exact Nat.le_trans hle (Nat.le_max_left _ _)
    · have hall := (foldr_max_le_iff (c.gaps s) q _).1 (Nat.le_refl _)
      exact Nat.max_le.2 ⟨hall.2 gap ((hmem gap).2 ⟨v, hgap⟩), hall.1⟩

theorem horizon_eq (c : Chronicle) (s : Scope) : Turn.horizon c s = (c.latest s).map fun head =>
    ⟨s, head.message.id, (c.gaps s).foldr max head.position.sequence⟩ := by
  simp only [foldr_max_gaps]
  rfl

theorem Sound.horizon_eq_some_iff (hc : c.Sound) {u : Update} :
    Turn.horizon c s = some u ↔ u.scope = s ∧ c.IsEnd u := by
  rw [horizon_eq, Option.map_eq_some_iff]
  constructor
  · rintro ⟨head, hl, rfl⟩
    obtain ⟨hhead, hs, hmax⟩ := hc.latest_eq_some hl
    exact ⟨rfl, head, hhead, hs, fun id e' => hmax, rfl⟩
  · obtain ⟨scope, event, sequence⟩ := u
    rintro ⟨rfl, e, he, hs, hmax, hsequence⟩
    dsimp only at he hs hmax hsequence
    subst hs hsequence
    cases hc.named he
    exact ⟨e, hc.latest_eq_of_last he hmax, rfl⟩

end Chronicle

theorem MarkerBook.not_covers_iff {σ : Type} {b : MarkerBook σ} {s : Scope} {q : Nat} :
    ¬ b.covers s q = true ↔ ∀ r, b.readTo s = some r → r < q := by
  unfold covers
  cases b.readTo s <;> simp

namespace Tracker

variable {σ : Type} {t : Tracker σ} {room : RoomId}

theorem not_covers_of_mem_unreadEnds {u : Update} (h : u ∈ t.unreadEnds room) :
    ¬ t.book.covers u.scope u.sequence = true := by
  simpa using (List.mem_filter.1 h).2

/-- What marking a room as read moves: the scopes that have messages and are not read to their
end. -/
theorem mem_unreadEnds_iff (hc : t.chronicle.Sound) {u : Update} : u ∈ t.unreadEnds room ↔
    u.scope.room = room ∧ t.chronicle.IsEnd u ∧
      ∀ q, t.book.readTo u.scope = some q → q < u.sequence := by
  rw [← MarkerBook.not_covers_iff]
  constructor
  · intro hu
    obtain ⟨s, hs, hhorizon⟩ := List.mem_filterMap.1 (List.mem_filter.1 hu).1
    obtain ⟨rfl, hend⟩ := hc.horizon_eq_some_iff.1 hhorizon
    exact ⟨Chronicle.room_of_mem_scopes hs, hend, not_covers_of_mem_unreadEnds hu⟩
  · rintro ⟨rfl, hend, hbehind⟩
    have hscope : u.scope ∈ t.chronicle.scopes u.scope.room := by
      obtain ⟨e, he, hs, -⟩ := id hend
      rw [← hs]
      exact hc.mem_scopes he
    have hhorizon := hc.horizon_eq_some_iff.2 ⟨rfl, hend⟩
    apply List.mem_filter.2
    exact ⟨List.mem_filterMap.2 ⟨u.scope, hscope, hhorizon⟩, by simpa using hbehind⟩

end Tracker

/-! ## One receipt for each scope -/

def SendQueue.joint (s : SendQueue) (slot : Slot) (u : Update) (now : Nat) : Queued :=
  match s.waiting? slot with
  | some q => joined q u.event u.sequence
  | none => ⟨u.event, u.sequence, now⟩

theorem Tracker.waiting?_queued {σ : Type} (t : Tracker σ) {us : List Update} (h : Apart us) :
    (∀ u ∈ us, (t.queued us).waiting? ⟨u.scope, t.sendVisibility⟩ =
      some (t.sends.joint ⟨u.scope, t.sendVisibility⟩ u t.ambient.elapsed)) ∧
    ∀ slot, (∀ u ∈ us, (⟨u.scope, t.sendVisibility⟩ : Slot) ≠ slot) →
      (t.queued us).waiting? slot = t.sends.waiting? slot := by
  unfold queued
  generalize t.sends = sends
  induction us generalizing sends with
  | nil => exact ⟨List.forall_mem_nil _, fun _ _ => rfl⟩
  | cons u us ih =>
    obtain ⟨hu, h⟩ := List.pairwise_cons.1 h
    have hne : ∀ w ∈ us, (⟨w.scope, t.sendVisibility⟩ : Slot) ≠ ⟨u.scope, t.sendVisibility⟩ :=
      fun w hw he => hu w hw (congrArg Slot.scope he).symm
    obtain ⟨hmoved, hkept⟩ := ih h (sends.queue ⟨u.scope, t.sendVisibility⟩ u.event u.sequence
      t.ambient.elapsed)
    rw [List.foldl_cons]
    constructor
    · intro w hw
      rcases List.mem_cons.1 hw with rfl | hw
      · rw [hkept _ hne, SendQueue.waiting?_queue, if_pos rfl]
        rfl
      · rw [hmoved w hw, SendQueue.joint, SendQueue.waiting?_queue, if_neg (hne w hw)]
        rfl
    · intro slot hslot
      rw [hkept slot fun w hw => hslot w (List.mem_cons_of_mem _ hw), SendQueue.waiting?_queue,
        if_neg (hslot u List.mem_cons_self).symm]

/-! ## One write for all scopes -/

theorem eq_of_apart {us : List Update} (h : Apart us) {u u' : Update} (hu : u ∈ us)
    (hu' : u' ∈ us) (hs : u.scope = u'.scope) : u = u' := by
  induction us with
  | nil => cases hu
  | cons w us ih =>
    obtain ⟨hw, h⟩ := List.pairwise_cons.1 h
    rcases List.mem_cons.1 hu with rfl | hin
    · rcases List.mem_cons.1 hu' with rfl | hin'
      · rfl
      · exact absurd hs (hw _ hin')
    · rcases List.mem_cons.1 hu' with rfl | hin'
      · exact absurd hs.symm (hw _ hin)
      · exact ih h hin hin'

namespace MarkerBook

section

variable {σ : Type} {b : MarkerBook σ} {us : List Update} {v : Visibility} {now : Nat}

theorem isUnflushed_congr {b' : MarkerBook σ} (h : b'.unflushed = b.unflushed) (s : Scope)
    (v : Visibility) : b'.isUnflushed s v = b.isUnflushed s v := by
  rw [isUnflushed, h, isUnflushed]

theorem not_slot_moved {s : Scope} {v' : Visibility} (h : ∀ u ∈ us, u.scope = s → v' ≠ v) :
    ¬ ∃ u ∈ us, (⟨u.scope, v⟩ : Slot) = ⟨s, v'⟩ := by
  rintro ⟨u, hu, he⟩
  cases he
  exact h u hu rfl rfl

theorem mem_pairs {slot : Slot} {m : Mark} :
    (slot, m) ∈ (us.map (entryOf v now)).map Entry.pair ↔
      ∃ u ∈ us, slot = ⟨u.scope, v⟩ ∧ m = ⟨u.event, u.sequence, now⟩ := by
  rw [List.map_map, List.mem_map]
  constructor
  · rintro ⟨u, hu, heq⟩
    cases heq
    exact ⟨u, hu, rfl, rfl⟩
  · rintro ⟨u, hu, rfl, rfl⟩
    exact ⟨u, hu, rfl⟩

theorem mark?_setAll_of_moved (h : Apart us) {u : Update} (hu : u ∈ (b.setAll v now us).2) :
    (b.setAll v now us).1.mark? u.scope v = some ⟨u.event, u.sequence, now⟩ := by
  have hapart : Apart (b.setAll v now us).2 := h.sublist (sublist_setAll v now us b)
  unfold mark?
  rw [marks_setAll]
  apply Table.get?_insertAll_of_distinct
  · -- Two moves of one slot are one update.
    intro m m' hm hm'
    obtain ⟨w, hw, hslot, rfl⟩ := mem_pairs.1 hm
    obtain ⟨w', hw', hslot', rfl⟩ := mem_pairs.1 hm'
    rw [eq_of_apart hapart hw hw' (congrArg Slot.scope (hslot.symm.trans hslot'))]
  · exact mem_pairs.2 ⟨u, hu, rfl, rfl⟩

theorem SetsWaiting.isUnflushed_foldl {f : MarkerBook σ → Slot → MarkerBook σ}
    {waits : Option Unit} (h : SetsWaiting f waits) {u : Update} (hu : u ∈ us) :
    (us.foldl (fun b u => f b ⟨u.scope, v⟩) b).isUnflushed u.scope v = waits.isSome := by
  rw [isUnflushed, Table.contains, h.get?_foldl, if_pos ⟨u, hu, rfl⟩]

theorem SetsWaiting.isUnflushed_foldl_of_not_moved {f : MarkerBook σ → Slot → MarkerBook σ}
    {waits : Option Unit} (h : SetsWaiting f waits) {s : Scope} {v' : Visibility}
    (hother : ∀ u ∈ us, u.scope = s → v' ≠ v) :
    (us.foldl (fun b u => f b ⟨u.scope, v⟩) b).isUnflushed s v' = b.isUnflushed s v' := by
  rw [isUnflushed, Table.contains, h.get?_foldl, if_neg (not_slot_moved hother)]
  rfl

end

variable {σ : Type} [Backing σ] {b b' : MarkerBook σ} {us : List Update} {v : Visibility}

structure Moves (b : MarkerBook σ) (v : Visibility) (now : Nat) (us : List Update)
    (b' : MarkerBook σ) (advance : Advance) : Prop where
  moved : ∀ u ∈ us, b'.mark? u.scope v = some ⟨u.event, u.sequence, now⟩
  kept : ∀ s v', (∀ u ∈ us, u.scope = s → v' ≠ v) → b'.mark? s v' = b.mark? s v'
  written : match advance with
    | .ignored => us = [] ∧ b'.storage = b.storage
    | .applied => us ≠ [] ∧
      Backing.storeAll (us.map (entryOf v now)) b.storage = (.ok (), b'.storage)
    | .unsaved why => us ≠ [] ∧
      Backing.storeAll (us.map (entryOf v now)) b.storage = (.error why, b'.storage)
  unflushed : ∀ u ∈ us, b'.isUnflushed u.scope v = true ↔ ∃ why, advance = .unsaved why
  settled : ∀ s v', (∀ u ∈ us, u.scope = s → v' ≠ v) →
    b'.isUnflushed s v' = b.isUnflushed s v'

theorem advanceAll_cases {b₁ : MarkerBook σ} {moved : List Update} {now : Nat}
    (hset : b.setAll v now us = (b₁, moved)) :
    (moved = [] ∧ b.advanceAll us v now = (b₁, [], .ignored)) ∨ moved ≠ [] ∧ ∃ s,
      (Backing.storeAll (moved.map (entryOf v now)) b.storage = (.ok (), s) ∧
        b.advanceAll us v now = (moved.foldl (fun b u => b.settle ⟨u.scope, v⟩)
          { b₁ with storage := s }, moved, .applied)) ∨
      ∃ why, Backing.storeAll (moved.map (entryOf v now)) b.storage = (.error why, s) ∧
        b.advanceAll us v now = (moved.foldl (fun b u => b.defer ⟨u.scope, v⟩)
          { b₁ with storage := s }, moved, .unsaved why) := by
  have hstorage : b₁.storage = b.storage := by rw [← storage_setAll v now us b, hset]
  unfold advanceAll
  rw [hset]
  dsimp only
  rw [hstorage]
  by_cases hnil : moved = []
  · left
    simp [hnil]
  · right
    simp only [List.isEmpty_iff, hnil, if_false]
    refine ⟨hnil, ?_⟩
    cases hcall : Backing.storeAll (moved.map (entryOf v now)) b.storage with
    | mk outcome s =>
      cases outcome with
      | ok _ => exact ⟨s, .inl ⟨rfl, rfl⟩⟩
      | error why => exact ⟨s, .inr ⟨why, rfl, rfl⟩⟩

/-- What several updates of different scopes do to a book. -/
theorem moves_advanceAll (b : MarkerBook σ) (h : Apart us) (v : Visibility) (now : Nat) :
    b.Moves v now (b.setAll v now us).2 (b.advanceAll us v now).1 (b.advanceAll us v now).2.2 := by
  have hmoved : ∀ u ∈ (b.setAll v now us).2, (b.advanceAll us v now).1.mark? u.scope v =
      some ⟨u.event, u.sequence, now⟩ := by
    intro u hu
    rw [mark?_congr (marks_advanceAll b us v now)]
    exact mark?_setAll_of_moved h hu
  have hkept : ∀ s v', (∀ u ∈ (b.setAll v now us).2, u.scope = s → v' ≠ v) →
      (b.advanceAll us v now).1.mark? s v' = b.mark? s v' := by
    intro s v' hother
    rw [mark?_congr (marks_advanceAll b us v now)]
    exact get?_marks_setAll_of_not_moved (not_slot_moved hother)
  have hunflushed := unflushed_setAll v now us b
  cases hset : b.setAll v now us with
  | mk b₁ moved =>
    rw [hset] at hmoved hkept hunflushed
    rcases advanceAll_cases hset with ⟨rfl, hall⟩ | ⟨hne, s, ⟨hcall, hall⟩ | ⟨why, hcall, hall⟩⟩
    · rw [hall] at hmoved hkept ⊢
      have hstorage : b₁.storage = b.storage := by rw [← storage_setAll v now us b, hset]
      exact ⟨hmoved, hkept, ⟨rfl, hstorage⟩, List.forall_mem_nil _,
        fun s v' _ => isUnflushed_congr hunflushed s v'⟩
    · rw [hall] at hmoved hkept ⊢
      refine ⟨hmoved, hkept, ⟨hne, ?_⟩, fun u hu => ?_, fun s' v' hother => ?_⟩
      · rw [setsWaiting_settle.storage_foldl]
        exact hcall
      · rw [setsWaiting_settle.isUnflushed_foldl hu]
        simp
      · rw [setsWaiting_settle.isUnflushed_foldl_of_not_moved hother]
        exact isUnflushed_congr hunflushed s' v'
    · rw [hall] at hmoved hkept ⊢
      refine ⟨hmoved, hkept, ⟨hne, ?_⟩, fun u hu => ?_, fun s' v' hother => ?_⟩
      · rw [setsWaiting_defer.storage_foldl]
        exact hcall
      · rw [setsWaiting_defer.isUnflushed_foldl hu]
        simp
      · rw [setsWaiting_defer.isUnflushed_foldl_of_not_moved hother]
        exact isUnflushed_congr hunflushed s' v'

end MarkerBook

/-! ## What is read afterwards -/

section Reading

variable {σ : Type} {c : Chronicle} {b : MarkerBook σ} {room : RoomId}

def ThreadState.Quiet (s : ThreadState) : Prop :=
  s.unread = 0 ∧ s.highlights = 0 ∧ s.hasUnread = false ∧ s.incomplete = false

theorem quiet_of_covers (hc : c.Sound)
    (h : ∀ s u, s.room = room → Turn.horizon c s = some u → b.covers s u.sequence = true)
    {root : EventId} {s : ThreadState} (hs : threadState c b room root = some s) : s.Quiet := by
  have hthrough : ReadThrough c b (.ofThread room root) :=
    ReadThrough.of_horizon hc fun u hu => h _ u rfl hu
  have hcount : countScope c b (.ofThread room root) = {} := by
    apply hthrough.countScope hc
    intro g hg
    exact hc.hasThread_iff.1 (Chronicle.hasThread_of_gap hg)
  unfold threadState at hs
  rw [hcount] at hs
  split at hs
  · cases hs
    exact ⟨rfl, rfl, rfl, rfl⟩
  · split at hs
    · cases hs
      exact ⟨rfl, rfl, rfl, rfl⟩
    · cases hs

/-- The main timeline of a room has a gap beyond its marker, and no message. -/
def GapOnly (c : Chronicle) (b : MarkerBook σ) (room : RoomId) : Prop :=
  (∀ id e, c.get? id = some e → e.scope ≠ .ofRoom room) ∧
    ∃ g ∈ c.gaps (.ofRoom room), ∀ q, b.readTo (.ofRoom room) = some q → q < g

theorem missing_iff {s : Scope} {readTo : Option Nat} :
    ((c.gaps s).any fun g => readTo.all (· < g)) = true ↔
      ∃ g ∈ c.gaps s, ∀ q, readTo = some q → q < g := by
  simp only [List.any_eq_true, Option.all_eq_true, decide_eq_true_eq]

/-- A scope without messages counts one as soon as a gap lies ahead. -/
theorem countScope_of_no_message (hc : c.Sound) {s : Scope}
    (h : ∀ id e, c.get? id = some e → e.scope ≠ s) :
    countScope c b s =
      let missing := (c.gaps s).any fun g => (b.readTo s).all (· < g)
      ⟨if missing then 1 else 0, 0, missing⟩ := by
  have hscan : c.scan s (b.readTo s) = [] := by
    rw [Chronicle.scan, List.filter_eq_nil_iff]
    intro e he
    rw [decide_eq_false (h _ e (hc.mem_values.1 he)), Bool.false_and]
    exact Bool.false_ne_true
  rw [hc.countScope_eq_countFrom, Chronicle.countFrom, hscan]
  rfl

theorem countScope_of_gapOnly (hc : c.Sound) (h : GapOnly c b room) :
    countScope c b (.ofRoom room) = ⟨1, 0, true⟩ := by
  rw [countScope_of_no_message hc h.1, missing_iff.2 h.2]
  rfl

theorem countScope_of_not_gapOnly (hc : c.Sound) (h : ¬ GapOnly c b room)
    (hread : ∀ u, Turn.horizon c (.ofRoom room) = some u →
      b.covers (.ofRoom room) u.sequence = true) : countScope c b (.ofRoom room) = {} := by
  by_cases hmessage : ∃ id e, c.get? id = some e ∧ e.scope = .ofRoom room
  · exact (ReadThrough.of_horizon hc hread).countScope hc fun _ => hmessage
  · have hnone : ∀ id e, c.get? id = some e → e.scope ≠ .ofRoom room :=
      fun id e he hs => hmessage ⟨id, e, he, hs⟩
    have hmissing : ((c.gaps (.ofRoom room)).any fun g => (b.readTo (.ofRoom room)).all (· < g)) =
        false := by
      rw [← Bool.not_eq_true, missing_iff]
      exact fun hgap => h ⟨hnone, hgap⟩
    rw [countScope_of_no_message hc hnone, hmissing]
    rfl

theorem roomState_of_quiet (h : ∀ s ∈ (roomState c b room).threads, s.Quiet) :
    (roomState c b room).unread = (countScope c b (.ofRoom room)).unread ∧
    (roomState c b room).highlights = (countScope c b (.ofRoom room)).highlights ∧
    (roomState c b room).isUnread = decide (0 < (countScope c b (.ofRoom room)).unread) ∧
    (roomState c b room).incomplete = (countScope c b (.ofRoom room)).incomplete := by
  have htotal : ∀ (count : ThreadState → Nat) (l : List ThreadState),
      (∀ s ∈ l, count s = 0) → ThreadState.total count l = 0 := by
    intro count l hl
    induction l with
    | nil => rfl
    | cons s l ih =>
      have hrest := ih fun s' hs' => hl s' (List.mem_cons_of_mem _ hs')
      simp only [ThreadState.total, List.foldr_cons, hl s List.mem_cons_self] at hrest ⊢
      omega
  have hany : ∀ (flag : ThreadState → Bool), (∀ s ∈ (roomState c b room).threads, flag s = false) →
      (roomState c b room).threads.any flag = false := by
    intro flag hflag
    rw [List.any_eq_false]
    intro s hs
    rw [hflag s hs]
    exact Bool.false_ne_true
  refine ⟨?_, ?_, ?_, ?_⟩
  · show _ + ThreadState.total (·.unread) (roomState c b room).threads = _
    rw [htotal _ _ fun s hs => (h s hs).1, Nat.add_zero]
  · show _ + ThreadState.total (·.highlights) (roomState c b room).threads = _
    rw [htotal _ _ fun s hs => (h s hs).2.1, Nat.add_zero]
  · show (_ || (roomState c b room).threads.any (·.hasUnread)) = _
    rw [hany _ fun s hs => (h s hs).2.2.1, Bool.or_false]
  · show (_ || (roomState c b room).threads.any (·.incomplete)) = _
    rw [hany _ fun s hs => (h s hs).2.2.2, Bool.or_false]

end Reading

/-! ## The answer -/

section

variable {σ : Type} [Backing σ]

/-- A room was marked as read: `moved` are the scopes whose markers moved, with their ends. -/
structure Answer.MarksRead (a : Answer σ) (t : Tracker σ) (room : RoomId)
    (moved : List Update) : Prop where
  moved_iff : ∀ u, u ∈ moved ↔ u.scope.room = room ∧ t.chronicle.IsEnd u ∧
    ∀ q, t.book.readTo u.scope = some q → q < u.sequence
  apart : Apart moved
  written : ∃ advance,
    t.book.Moves .personal t.ambient.wallClock moved a.tracker.book advance ∧
    a.reply = .ok (Turn.warnings .personal moved advance ++
      ((t.queued moved).due t.ambient.elapsed).map Action.ofSend)
  queued : ∀ u ∈ moved, (t.queued moved).waiting? ⟨u.scope, t.sendVisibility⟩ =
    some (t.sends.joint ⟨u.scope, t.sendVisibility⟩ u t.ambient.elapsed)
  unqueued : ∀ slot, (∀ u ∈ moved, (⟨u.scope, t.sendVisibility⟩ : Slot) ≠ slot) →
    (t.queued moved).waiting? slot = t.sends.waiting? slot
  sends : a.tracker.sends = ((t.queued moved).release t.ambient.elapsed).1
  threads : ∀ root s, a.tracker.threadState room root = some s → s.Quiet
  listed : ∀ s ∈ (a.tracker.roomState room).threads, s.Quiet
  read : ¬ GapOnly t.chronicle t.book room →
    (a.tracker.roomState room).mainUnread = 0 ∧ (a.tracker.roomState room).unread = 0 ∧
      (a.tracker.roomState room).isUnread = false ∧ (a.tracker.roomState room).incomplete = false
  gapOnly : GapOnly t.chronicle t.book room →
    (a.tracker.roomState room).mainUnread = 1 ∧ (a.tracker.roomState room).unread = 1 ∧
      (a.tracker.roomState room).isUnread = true ∧ (a.tracker.roomState room).incomplete = true
  chronicle : a.tracker.chronicle = t.chronicle
  focus : a.tracker.focus = t.focus
  awaited : a.tracker.awaited = t.awaited
  held : a.tracker.held = t.held

namespace Tracker

variable {t : Tracker σ} {room : RoomId}

theorem moved_unreadEnds (t : Tracker σ) (room : RoomId) :
    (t.book.setAll .personal t.ambient.wallClock (t.unreadEnds room)).2 = t.unreadEnds room :=
  t.book.setAll_of_apart _ (t.apart_readNow (.command (.markRoomRead room)))
    fun _ => not_covers_of_mem_unreadEnds

theorem markRoomRead_eq (t : Tracker σ) (room : RoomId) : ∃ reported notices,
    t.markRoomRead room =
      ({ tracker := { t with
          book := (t.book.advanceAll (t.unreadEnds room) .personal t.ambient.wallClock).1
          sends := t.queued (t.unreadEnds room)
          reported }
         notices
         actions := Turn.warnings .personal (t.unreadEnds room)
          (t.book.advanceAll (t.unreadEnds room) .personal t.ambient.wallClock).2.2
         dated := true } : Turn σ).release.done := by
  obtain ⟨reported, notices, hreport⟩ :=
    (({ tracker := t } : Turn σ).readAll (t.unreadEnds room)).report_eq room
  refine ⟨reported, notices, ?_⟩
  unfold markRoomRead
  dsimp only
  rw [hreport, Turn.readAll_eq]
  dsimp only
  rw [MarkerBook.moved_advanceAll, moved_unreadEnds, List.nil_append]

theorem covers_markRoomRead (hc : t.chronicle.Sound) (s : Scope) (u : Update)
    (hs : s.room = room) (hu : Turn.horizon t.chronicle s = some u) :
    (t.book.advanceAll (t.unreadEnds room) .personal t.ambient.wallClock).1.covers s u.sequence =
      true := by
  obtain ⟨rfl, hend⟩ := hc.horizon_eq_some_iff.1 hu
  rw [MarkerBook.covers_advanceAll]
  by_cases hread : t.book.covers u.scope u.sequence = true
  · exact .inl hread
  · have hmoved := (mem_unreadEnds_iff hc).2 ⟨hs, hend, MarkerBook.not_covers_iff.1 hread⟩
    exact .inr ⟨u, hmoved, rfl, Nat.le_refl _⟩

theorem gapOnly_markRoomRead (hc : t.chronicle.Sound) (room : RoomId) :
    GapOnly t.chronicle (t.book.advanceAll (t.unreadEnds room) .personal t.ambient.wallClock).1
      room ↔ GapOnly t.chronicle t.book room := by
  have hmoves := t.book.moves_advanceAll (t.apart_readNow (.command (.markRoomRead room)))
    .personal t.ambient.wallClock
  have hends : t.readNow (.command (.markRoomRead room)) = t.unreadEnds room := rfl
  rw [hends, moved_unreadEnds] at hmoves
  apply and_congr_right
  intro hnone
  rw [MarkerBook.readTo_congr_mark]
  intro v
  apply hmoves.kept
  intro u hu hs
  obtain ⟨-, ⟨e, he, hes, -⟩, -⟩ := (mem_unreadEnds_iff hc).1 hu
  exact absurd (hes.trans hs) (hnone _ e he)

theorem marksRead (hc : t.chronicle.Sound) (room : RoomId) :
    (t.markRoomRead room).MarksRead t room (t.unreadEnds room) := by
  have hapart : Apart (t.unreadEnds room) := t.apart_readNow (.command (.markRoomRead room))
  have hmoves := t.book.moves_advanceAll hapart .personal t.ambient.wallClock
  rw [moved_unreadEnds] at hmoves
  have hqueued := t.waiting?_queued hapart
  obtain ⟨reported, notices, hanswer⟩ := t.markRoomRead_eq room
  rw [hanswer]
  have hquiet : ∀ root s, ReadTracking.threadState t.chronicle
      (t.book.advanceAll (t.unreadEnds room) .personal t.ambient.wallClock).1 room root = some s →
        s.Quiet :=
    fun root s => quiet_of_covers hc (covers_markRoomRead hc)
  have hlisted : ∀ s ∈ (ReadTracking.roomState t.chronicle
      (t.book.advanceAll (t.unreadEnds room) .personal t.ambient.wallClock).1 room).threads,
        s.Quiet := by
    intro s hs
    obtain ⟨root, -, hroot⟩ := List.mem_filterMap.1 hs
    exact hquiet root s hroot
  obtain ⟨hunread, -, hflag, hincomplete⟩ := roomState_of_quiet hlisted
  have hgap := gapOnly_markRoomRead hc room
  refine
    { moved_iff := fun u => mem_unreadEnds_iff hc
      apart := hapart
      written := ⟨_, hmoves, ?_⟩
      queued := hqueued.1
      unqueued := hqueued.2
      sends := rfl
      threads := hquiet
      listed := hlisted
      read := fun h => ?_
      gapOnly := fun h => ?_
      chronicle := rfl
      focus := rfl
      awaited := rfl
      held := rfl }
  · rw [← SendQueue.map_release]
    rfl
  · have hmain := countScope_of_not_gapOnly hc (fun hg => h (hgap.1 hg))
      fun u => covers_markRoomRead hc _ u rfl
    rw [hmain] at hunread hflag hincomplete
    exact ⟨congrArg ScopeCount.unread hmain, hunread, hflag, hincomplete⟩
  · have hmain := countScope_of_gapOnly hc (hgap.2 h)
    rw [hmain] at hunread hflag hincomplete
    exact ⟨congrArg ScopeCount.unread hmain, hunread, hflag, hincomplete⟩

/-- Whatever happened before, and whether the storage fails or not: marking a room as read moves
the personal marker of every scope that has messages and is not read to its end, to its last
message and its newest gap, with one write; it queues a receipt for each of these scopes and for no
other; and then nothing is unread in the room, except that a main timeline of which no message is
indexed still counts one as long as a gap lies beyond its marker. -/
theorem marking_read_reads_to_the_end {ambient : Ambient} {policy : Policy} {reader : UserId}
    {s : σ} (ht : (openOver ambient policy reader s).1 = .ok t) (ms : List Moment)
    (room : RoomId) :
    ∃ moved, ((t.after ms).handle (.markRoomRead room)).MarksRead (t.after ms) room moved := by
  obtain ⟨book, rfl, -⟩ := eq_fresh_of_openOver ht
  have hsound : ((fresh ambient policy reader book).after ms).chronicle.Sound :=
    sound_after (Chronicle.sound_empty _) ms
  exact ⟨_, marksRead hsound room⟩

/-- Two limited batches of replies, and a storage that fails: the thread is read to its last reply,
and the gaps of the main timeline stay. -/
theorem marking_read_reads_to_the_end_without_rations :
    let room : RoomId := ⟨"!r"⟩
    let reply (id : String) (q : Nat) : Message :=
      ⟨⟨id⟩, room, ⟨"@bot"⟩, q, .threadReply ⟨"$1"⟩, false⟩
    let ms : List Moment :=
      [.command (.receive room [reply "$2" 2] true), .command (.receive room [reply "$4" 4] true)]
    let t := fresh .counting {} ⟨"@me"⟩ (⟨⟨.empty, some 0, 0⟩, .empty, .empty⟩ :
      MarkerBook (Rationed Shelf))
    let a := (t.after ms).handle (.markRoomRead room)
    (∃ moved, a.MarksRead (t.after ms) room moved) ∧
      a.tracker.book.mark? (.ofThread room ⟨"$1"⟩) .personal = some ⟨⟨"$4"⟩, 4, 1700000000000⟩ ∧
      a.tracker.book.mark? (.ofRoom room) .personal = none ∧
      a.actions = [.unsaved (.ofThread room ⟨"$1"⟩) .personal (.io "disk unavailable #1"),
        .send (.ofThread room ⟨"$1"⟩) ⟨"$4"⟩ .shared] ∧
      (a.tracker.roomState room).mainUnread = 1 ∧
      (a.tracker.roomState room).incomplete = true := by
  intro room reply ms t a
  have ht : (openOver .counting {} ⟨"@me"⟩ (⟨.empty, some 1, 0⟩ : Rationed Shelf)).1 = .ok t := rfl
  refine ⟨marking_read_reads_to_the_end ht ms room, ?_, ?_, ?_, ?_, ?_⟩
  · decide
  · decide
  · decide
  · decide
  · decide

end Tracker

end

end ReadTracking
