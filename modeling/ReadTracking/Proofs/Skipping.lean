import ReadTracking.Backing.Shelf
import ReadTracking.Proofs.Holding

/-!
# Skipped messages are never reported as read

The timeline of a room comes in batches, and stretches of it may be skipped.  The batch behind a
skipped stretch leaves a gap at its own first message, in the main timeline and in every thread that
the room has by then.  Nothing but older messages ever closes a gap.  So as long as a marker stands
before a skipped message, the gap behind that message lies after the marker, and what it makes
unread and incomplete stays so, whatever else happens.
-/

set_option autoImplicit false

namespace ReadTracking

/-! ## Gaps -/

theorem Strand.contains_gaps_openGap (s : Strand) (q : Nat) :
    (s.openGap q).gaps.contains q = true :=
  Table.contains_iff.2 ⟨(), Table.get?_insert_self _ _ _⟩

theorem Strand.contains_gaps_openGap_of_contains {s : Strand} {g : Nat} (q : Nat)
    (h : s.gaps.contains g = true) : (s.openGap q).gaps.contains g = true := by
  by_cases e : g = q
  · exact e ▸ s.contains_gaps_openGap q
  · obtain ⟨v, hv⟩ := Table.contains_iff.1 h
    exact Table.contains_iff.2 ⟨v, (Table.get?_insert_of_ne _ _ e).trans hv⟩

namespace RoomLog

variable (log : RoomLog)

theorem contains_gaps_strand_openGap {roots : List EventId} {thread : Option EventId} (q : Nat)
    (h : ∀ root, thread = some root → root ∈ roots ∧ log.threads.contains root = true) :
    ((log.openGap roots q).strand thread).gaps.contains q = true := by
  cases thread with
  | none => exact log.trunk.contains_gaps_openGap q
  | some root =>
    obtain ⟨hroot, hthread⟩ := h root rfl
    obtain ⟨s, hs⟩ := Table.contains_iff.1 hthread
    simp only [strand, openGap, strand?, Table.get?_mapValues, hs, Option.map_some, if_pos hroot,
      Option.getD_some]
    exact s.contains_gaps_openGap q

theorem contains_gaps_strand_of_contains {roots : List EventId} {thread : Option EventId} {g : Nat}
    (q : Nat) (h : (log.strand thread).gaps.contains g = true) :
    ((log.openGap roots q).strand thread).gaps.contains g = true := by
  cases thread with
  | none => exact Strand.contains_gaps_openGap_of_contains q h
  | some root =>
    simp only [strand, openGap, strand?, Table.get?_mapValues] at h ⊢
    cases hs : log.threads.get? root with
    | none =>
      rw [hs] at h
      exact h
    | some s =>
      rw [hs] at h
      simp only [Option.map_some, Option.getD_some]
      split
      · exact Strand.contains_gaps_openGap_of_contains q h
      · exact h

end RoomLog

namespace Chronicle

variable {c : Chronicle} {room : RoomId} {ms : List Message} {s : Scope} {g : Nat}

theorem hasThread_of_gap {root : EventId}
    (h : (c.strand (.ofThread room root)).gaps.contains g = true) :
    c.hasThread room root = true := by
  refine c.hasThread_of_strand_ne_empty fun hempty => ?_
  rw [hempty] at h
  cases h

theorem Sound.contains_gaps_take (hc : c.Sound) {b : Batch} (hf : b.filled = none)
    (h : (c.strand s).gaps.contains g = true) :
    ((c.take b).1.strand s).gaps.contains g = true := by
  obtain ⟨room, messages, limited, filled⟩ := b
  cases hf
  show ((c.ingest room messages limited).1.strand s).gaps.contains g = true
  have hkept : ((c.appendAll room messages).1.strand s).gaps.contains g = true := by
    rw [hc.gaps_appendAll]
    exact h
  obtain ⟨-, heq | ⟨roots, p, -, heq⟩⟩ := c.ingest_cases room messages limited
  · rw [heq]
    exact hkept
  -- The gap behind the batch comes on top of those that were there.
  · rw [heq]
    simp only [strand, log_openGap]
    split
    next e =>
      subst e
      exact RoomLog.contains_gaps_strand_of_contains _ _ hkept
    next => exact hkept

/-- A limited batch opens a gap before its least new sequence, in the main timeline and in the
threads that the room had before. -/
theorem ingest_limited {first : Nat}
    (h : ((c.appendAll room ms).2.map (·.position.sequence)).min? = some first) :
    (c.ingest room ms true).1 =
      (c.appendAll room ms).1.openGap room (c.log room).threads.keys first := by
  unfold ingest log
  -- A room without a log has no threads, so both cases go alike.
  cases c.rooms.get? room
  all_goals
    dsimp only
    split
    next first' h' =>
      cases h.symm.trans h'
      rfl
    next hno => exact absurd h (hno first rfl)

/-- A limited batch with a new message leaves a gap at one of its messages, in the main timeline and
in every thread that the room had before. -/
theorem Sound.exists_gap_take (hc : c.Sound) {m : Message} (hm : m ∈ ms) (hr : m.room = room)
    (hn : c.get? m.id = none) :
    ∃ m' ∈ ms, ∀ thread, (∀ root, thread = some root → c.hasThread room root = true) →
      ((c.take ⟨room, ms, true, none⟩).1.strand ⟨room, thread⟩).gaps.contains m'.sequence =
        true := by
  cases hmin : ((c.appendAll room ms).2.map (·.position.sequence)).min? with
  | none =>
    obtain ⟨p, hp, -⟩ := exists_placed hm hr hn
    rw [List.min?_eq_none_iff, List.map_eq_nil_iff] at hmin
    rw [hmin] at hp
    cases hp
  | some first =>
    have hc' : (c.appendAll room ms).1.Sound := hc.appendAll
    obtain ⟨p, hp, rfl⟩ := List.mem_map.1 (List.min?_mem hmin)
    obtain ⟨e, he, -, hpos⟩ := has_appendAll p hp
    have hnew : c.get? p.id = none := (mem_placed_appendAll.1 (List.mem_map_of_mem hp)).1
    have hin : e.message ∈ ms := by
      rcases of_get?_appendAll he with hold | ⟨-, hin, -⟩
      · cases hnew.symm.trans hold
      · exact hin
    have hseq : p.position.sequence = e.message.sequence := by
      rw [← hpos]
      exact hc'.numbered he
    refine ⟨e.message, hin, fun thread hthread => ?_⟩
    show ((c.ingest room ms true).1.strand ⟨room, thread⟩).gaps.contains _ = true
    rw [ingest_limited hmin, hseq]
    simp only [strand, log_openGap, if_true]
    apply RoomLog.contains_gaps_strand_openGap
    rintro root rfl
    have hroot := hthread root rfl
    -- The thread is still there when the gap is opened.
    have hkept : (c.appendAll room ms).1.hasThread room root = true := by
      obtain ⟨id, e, he, hs⟩ := hc.hasThread_iff.1 hroot
      exact hc'.hasThread_iff.2 ⟨id, e, get?_appendAll_of_some he, hs⟩
    rw [hasThread_eq] at hroot hkept
    exact ⟨Table.mem_keys.2 (Table.contains_iff.1 hroot), hkept⟩

end Chronicle

/-- A scope with a gap after its marker is unread and incomplete. -/
theorem countScope_of_gap {σ : Type} {c : Chronicle} {b : MarkerBook σ} {s : Scope} {g : Nat}
    (hg : (c.strand s).gaps.contains g = true) (hq : ∀ q, b.readTo s = some q → q < g) :
    1 ≤ (countScope c b s).unread ∧ (countScope c b s).incomplete = true := by
  have hgap : c.hasGapAfter s (b.readTo s) = true := by
    rw [Chronicle.hasGapAfter_eq]
    obtain ⟨v, hv⟩ := Table.contains_iff.1 hg
    cases hread : b.readTo s with
    | none =>
      have hsome : ¬ (c.strand s).gaps.isEmpty = true := by
        intro hempty
        cases (Table.isEmpty_iff.1 hempty g).symm.trans hv
      simpa [Strand.hasGapAfter] using hsome
    | some q =>
      apply List.any_eq_true.2
      exact ⟨g, Table.mem_keys.2 ⟨v, hv⟩, decide_eq_true (hq q hread)⟩
  simp only [countScope, hgap, if_true, and_true]
  exact Nat.le_max_right _ _

/-! ## A timeline with skipped stretches -/

def Moment.Spares (timeline : List Message) : Moment → Prop
  | .command (.backfill _ _ _) | .command (.supply _ _) | .command (.forget _) => False
  | .command (.receive _ messages _) => ∀ m ∈ messages, m.id ∉ timeline.map (·.id)
  | .command (.markRoomRead _) | .command (.viewRoom _) | .command (.viewThread _ _)
  | .command .closeThread | .command .leave | .command (.jump _ _ _)
  | .command (.receipt _ _ _ _ _) | .command (.sendFailed _ _ _) | .command (.tick _)
  | .surroundings _ | .subscribe | .unsubscribe _ => True

inductive Portion where
  | batch (skipped delivered : List Message) (limited : Bool)
  | meanwhile (m : Moment)

namespace Portion

def stretch : Portion → List Message
  | .batch skipped delivered _ => skipped ++ delivered
  | .meanwhile _ => []

def moment (room : RoomId) : Portion → Moment
  | .batch _ delivered limited => .command (.receive room delivered limited)
  | .meanwhile m => m

def Fits (timeline : List Message) : Portion → Prop
  | .batch skipped delivered limited => delivered ≠ [] ∧ (skipped ≠ [] → limited = true)
  | .meanwhile m => m.Spares timeline

variable {timeline : List Message} {p : Portion}

/-- A part forgets no room, fills no gap, and brings messages of its stretch or such as are not of
the timeline. -/
theorem Fits.brings (h : p.Fits timeline) {room : RoomId} {c : Command}
    (hc : p.moment room = .command c) : (∀ room', c ≠ .forget room') ∧
      ∀ {σ : Type} (t : Tracker σ) (b : Batch), t.batch? c = some b → b.filled = none ∧
        ∀ m ∈ b.messages, m ∈ p.stretch ∨ m.id ∉ timeline.map (·.id) := by
  cases p with
  | batch skipped delivered limited =>
    cases hc
    refine ⟨fun _ h => (by cases h), fun t b hb => ?_⟩
    cases hb
    exact ⟨rfl, fun m hm => .inl (List.mem_append_right _ hm)⟩
  | meanwhile m =>
    have hc : m = .command c := hc
    subst hc
    cases c with
    | receive room' messages limited =>
      refine ⟨fun _ h => (by cases h), fun t b hb => ?_⟩
      cases hb
      exact ⟨rfl, fun m hm => .inr (h m hm)⟩
    | backfill | supply | forget => exact absurd h id
    | markRoomRead | viewRoom | viewThread | closeThread | leave | jump | receipt | sendFailed
    | tick => exact ⟨fun _ h => (by cases h), fun t b hb => (by cases hb)⟩

end Portion

namespace Tracker

variable {σ : Type}

/-- The parts deliver a timeline of a room to a tracker, whose messages are new to it and have
different names and rising sequences. -/
structure Delivers (t : Tracker σ) (room : RoomId) (parts : List Portion) : Prop where
  housed : ∀ m ∈ parts.flatMap Portion.stretch, m.room = room
  fresh : ∀ m ∈ parts.flatMap Portion.stretch, t.chronicle.get? m.id = none
  apart : ((parts.flatMap Portion.stretch).map (·.id)).Nodup
  rising : (parts.flatMap Portion.stretch).Pairwise (·.sequence < ·.sequence)
  fits : ∀ p ∈ parts, p.Fits (parts.flatMap Portion.stretch)

variable [Backing σ] {t : Tracker σ} {room : RoomId} {timeline : List Message} {p : Portion}

theorem get?_meet_portion (hc : t.chronicle.Sound) (hp : p.Fits timeline) {id : EventId}
    (hid : id ∈ timeline.map (·.id)) (hnot : id ∉ p.stretch.map (·.id))
    (hn : t.chronicle.get? id = none) :
    (t.meet (p.moment room)).tracker.chronicle.get? id = none := by
  cases hm : p.moment room with
  | surroundings | subscribe | unsubscribe => exact hn
  | command c =>
    obtain ⟨-, hbrings⟩ := hp.brings hm
    apply Option.eq_none_iff_forall_ne_some.2
    intro e he
    rcases of_get?_handle hc he with hold | hplaced
    · cases hn.symm.trans hold
    · unfold placed at hplaced
      split at hplaced
      next b hb =>
        obtain ⟨-, m, hm, -, rfl⟩ := Chronicle.mem_placed_take.1 hplaced
        rcases (hbrings t b hb).2 m hm with hin | hout
        · exact hnot (List.mem_map_of_mem hin)
        · exact hout hid
      next => cases hplaced

theorem contains_gaps_meet_portion (hc : t.chronicle.Sound) (hp : p.Fits timeline) {s : Scope}
    {g : Nat} (hg : (t.chronicle.strand s).gaps.contains g = true) :
    ((t.meet (p.moment room)).tracker.chronicle.strand s).gaps.contains g = true := by
  cases hm : p.moment room with
  | surroundings | subscribe | unsubscribe => exact hg
  | command c =>
    obtain ⟨hf, hbrings⟩ := hp.brings hm
    obtain ⟨ws, place, h⟩ := t.conducts c hf
    show ((t.handle c).tracker.chronicle.strand s).gaps.contains g = true
    rw [h.grants.chronicle]
    unfold loaded
    split
    next b hb => exact hc.contains_gaps_take (hbrings t b hb).1 hg
    next => exact hg

theorem after_portions_keep {P : Tracker σ → Prop} {parts : List Portion} (h : P t)
    (hs : t.chronicle.Sound) (step : ∀ p ∈ parts, ∀ t : Tracker σ, t.chronicle.Sound → P t →
      P (t.meet (p.moment room)).tracker) : P (t.after (parts.map (Portion.moment room))) := by
  refine after_keeps_of_sound hs h fun m hm u hu hP => ?_
  obtain ⟨p, hp, rfl⟩ := List.mem_map.1 hm
  exact step p hp u hu hP

theorem after_portions (before later : List Portion) (p : Portion) :
    t.after ((before ++ p :: later).map (Portion.moment room)) =
      ((t.after (before.map (Portion.moment room))).meet (p.moment room)).tracker.after
        (later.map (Portion.moment room)) := by
  rw [List.map_append, after_append]
  rfl

/-- What a part brings is new to the tracker when it comes. -/
theorem Delivers.fresh_after {before later : List Portion}
    (h : t.Delivers room (before ++ p :: later)) (hs : t.chronicle.Sound) {m : Message}
    (hm : m ∈ p.stretch) :
    (t.after (before.map (Portion.moment room))).chronicle.get? m.id = none := by
  obtain ⟨-, hfresh, hapart, -, hfits⟩ := h
  have hin : m ∈ (before ++ p :: later).flatMap Portion.stretch :=
    List.mem_flatMap.2 ⟨p, List.mem_append_right _ List.mem_cons_self, hm⟩
  refine after_portions_keep (P := fun t => t.chronicle.get? m.id = none) (hfresh m hin) hs
    fun q hq u hu hn => ?_
  -- Names differ, so no part before this one covers a message of that name.
  have hnot : m.id ∉ q.stretch.map (·.id) := by
    intro hmem
    rw [List.flatMap_append, List.map_append] at hapart
    have hfirst : m.id ∈ (before.flatMap Portion.stretch).map (·.id) := by
      obtain ⟨m', hm', he⟩ := List.mem_map.1 hmem
      exact he ▸ List.mem_map_of_mem (List.mem_flatMap.2 ⟨q, hq, hm'⟩)
    have hsecond : m.id ∈ ((p :: later).flatMap Portion.stretch).map (·.id) :=
      List.mem_map_of_mem (List.mem_flatMap.2 ⟨p, List.mem_cons_self, hm⟩)
    exact (List.nodup_append.1 hapart).2.2 _ hfirst _ hsecond rfl
  exact get?_meet_portion hu (hfits q (List.mem_append_left _ hq)) (List.mem_map_of_mem hin) hnot hn

/-- Behind every skipped message there is a gap from the batch behind it on, in the main timeline
and in every thread that the room had before that batch. -/
theorem Delivers.exists_gap {before later : List Portion} {skipped delivered : List Message}
    {limited : Bool} (h : t.Delivers room (before ++ .batch skipped delivered limited :: later))
    (hs : t.chronicle.Sound) {m : Message} (hm : m ∈ skipped) :
    ∃ g, m.sequence < g ∧ ∀ thread, (∀ root, thread = some root →
        (t.after (before.map (Portion.moment room))).chronicle.hasThread room root = true) →
      ((t.after ((before ++ .batch skipped delivered limited :: later).map
        (Portion.moment room))).chronicle.strand ⟨room, thread⟩).gaps.contains g = true := by
  have hmid : Portion.batch skipped delivered limited ∈
      before ++ .batch skipped delivered limited :: later :=
    List.mem_append_right _ List.mem_cons_self
  obtain ⟨hne, hlimited⟩ := h.fits _ hmid
  cases hlimited (List.ne_nil_of_mem hm)
  obtain ⟨d, hd⟩ := List.exists_mem_of_ne_nil _ hne
  have hdin : d ∈ (Portion.batch skipped delivered true).stretch := List.mem_append_right _ hd
  have hroom : d.room = room := h.housed d (List.mem_flatMap.2 ⟨_, hmid, hdin⟩)
  have hu := sound_after hs (before.map (Portion.moment room))
  obtain ⟨m', hm', hgap⟩ := hu.exists_gap_take hd hroom (h.fresh_after hs hdin)
  -- The gap stands at a delivered message, and that comes after the skipped one.
  have hrising : (skipped ++ delivered).Pairwise (·.sequence < ·.sequence) := by
    have hall := h.rising
    rw [List.flatMap_append, List.flatMap_cons] at hall
    exact (List.pairwise_append.1 (List.pairwise_append.1 hall).2.1).1
  refine ⟨m'.sequence, (List.pairwise_append.1 hrising).2.2 m hm m' hm', fun thread hthread => ?_⟩
  rw [after_portions]
  refine after_portions_keep
    (P := fun t => (t.chronicle.strand ⟨room, thread⟩).gaps.contains m'.sequence = true) ?_
    (sound_meet hu _) fun q hq u hu hg => ?_
  · obtain ⟨ws, place, hconduct⟩ := (t.after (before.map (Portion.moment room))).conducts
      (.receive room delivered true) fun _ h => by cases h
    show (((t.after (before.map (Portion.moment room))).handle
      (.receive room delivered true)).tracker.chronicle.strand ⟨room, thread⟩).gaps.contains _ = _
    rw [hconduct.grants.chronicle, loaded_eq (b := ⟨room, delivered, true, none⟩) rfl]
    exact hgap thread hthread
  · exact contains_gaps_meet_portion hu
      (h.fits q (List.mem_append_right _ (List.mem_cons_of_mem _ hq))) hg

/-- A timeline of new messages with different names and rising sequences is delivered to a tracker
in batches, of which each that comes behind a skipped stretch is limited, and meanwhile anything
happens but that older messages or answers to jumps come or a room is forgotten.  From the batch
behind a skipped message on, the main timeline is unread and incomplete unless it is read up to that
message; and so is every thread that the room had before the batch, if its root is indexed in the
room. -/
theorem skipped_messages_never_read {ambient : Ambient} {policy : Policy} {reader : UserId} {s : σ}
    {t : Tracker σ} (ht : (openOver ambient policy reader s).1 = .ok t) (past : List Moment)
    {room : RoomId} {before later : List Portion} {skipped delivered : List Message}
    {limited : Bool}
    (h : (t.after past).Delivers room (before ++ .batch skipped delivered limited :: later))
    {m : Message} (hm : m ∈ skipped) :
    let known := (t.after past).after (before.map (Portion.moment room))
    let u := (t.after past).after
      ((before ++ .batch skipped delivered limited :: later).map (Portion.moment room))
    ((∀ q, u.book.readTo (.ofRoom room) = some q → q < m.sequence) →
      1 ≤ (u.roomState room).mainUnread ∧ (u.roomState room).incomplete = true) ∧
    ∀ root, known.chronicle.hasThread room root = true →
      u.chronicle.rootKnown room root = true →
      (∀ q, u.book.readTo (.ofThread room root) = some q → q < m.sequence) →
      ∃ thread ∈ (u.roomState room).threads, u.threadState room root = some thread ∧
        thread.root = root ∧ 1 ≤ thread.unread ∧ thread.incomplete = true := by
  intro known u
  have hs : (t.after past).chronicle.Sound := by
    obtain ⟨book, rfl, -⟩ := eq_fresh_of_openOver ht
    exact sound_after (Chronicle.sound_empty _) past
  obtain ⟨g, hlt, hgap⟩ := h.exists_gap hs hm
  constructor
  · intro hread
    have hmain := hgap none fun _ h => by cases h
    obtain ⟨hunread, hincomplete⟩ := countScope_of_gap (b := u.book) hmain
      fun q hq => Nat.lt_trans (hread q hq) hlt
    refine ⟨hunread, ?_⟩
    exact Bool.or_eq_true_iff.2 (.inl hincomplete)
  · intro root hroot hknown hread
    have hthread := hgap (some root) fun root' e => by
      cases e
      exact hroot
    obtain ⟨hunread, hincomplete⟩ := countScope_of_gap (b := u.book) hthread
      fun q hq => Nat.lt_trans (hread q hq) hlt
    have hstate : u.threadState room root =
        some (.ofCount root true (countScope u.chronicle u.book (.ofThread room root))) :=
      if_pos hknown
    have hlisted : root ∈ u.chronicle.threads room :=
      Chronicle.mem_threads.2 (Chronicle.hasThread_of_gap hthread)
    exact ⟨_, List.mem_filterMap.2 ⟨root, hlisted, hstate⟩, hstate, rfl, hunread, hincomplete⟩

/-- A room is read to its end; then a reply and a message are skipped, and the next ones come. -/
theorem skipped_messages_never_read_in_a_room :
    let room : RoomId := ⟨"!r"⟩
    let said (id : String) (q : Nat) (content : Content) : Message :=
      ⟨⟨id⟩, room, ⟨"@bot"⟩, q, content, false⟩
    let t : Tracker Shelf := (fresh .counting {} ⟨"@me"⟩ ⟨.empty, .empty, .empty⟩).after
      [.command (.viewRoom room)]
    let before : List Portion :=
      [.batch [] [said "$1" 1 .plain, said "$2" 2 (.threadReply ⟨"$1"⟩)] false,
        .meanwhile (.command (.markRoomRead room)), .meanwhile (.command .leave)]
    let later : List Portion :=
      [.meanwhile (.command (.jump room ⟨"$9"⟩ true)), .batch [] [said "$6" 6 .other] false]
    let u := t.after ((before ++ .batch [said "$3" 3 (.threadReply ⟨"$1"⟩), said "$4" 4 .plain]
      [said "$5" 5 .other] true :: later).map (Portion.moment room))
    (1 ≤ (u.roomState room).mainUnread ∧ (u.roomState room).incomplete = true) ∧
      ∃ thread ∈ (u.roomState room).threads, u.threadState room ⟨"$1"⟩ = some thread ∧
        thread.root = ⟨"$1"⟩ ∧ 1 ≤ thread.unread ∧ thread.incomplete = true := by
  intro room said t before later u
  have ht : (openOver .counting {} ⟨"@me"⟩ Shelf.empty).1 =
      .ok (fresh .counting {} ⟨"@me"⟩ ⟨.empty, .empty, .empty⟩) := rfl
  have h : t.Delivers room
      (before ++ .batch [said "$3" 3 (.threadReply ⟨"$1"⟩), said "$4" 4 .plain]
        [said "$5" 5 .other] true :: later) := by
    refine ⟨by decide +kernel, by decide +kernel, by decide +kernel, by decide +kernel, ?_⟩
    simp [before, later, Portion.Fits, Moment.Spares]
  have hmain : u.book.readTo (.ofRoom room) = some 1 := by decide +kernel
  have hthread : u.book.readTo (.ofThread room ⟨"$1"⟩) = some 2 := by decide +kernel
  obtain ⟨hroom, -⟩ := skipped_messages_never_read ht [.command (.viewRoom room)] h
    (m := said "$4" 4 .plain) (by simp)
  obtain ⟨-, hthreads⟩ := skipped_messages_never_read ht [.command (.viewRoom room)] h
    (m := said "$3" 3 (.threadReply ⟨"$1"⟩)) (by simp)
  refine ⟨hroom fun q hq => ?_, hthreads ⟨"$1"⟩ (by decide +kernel) (by decide +kernel)
    fun q hq => ?_⟩
  · cases hmain.symm.trans hq
    decide
  · cases hthread.symm.trans hq
    decide

end Tracker

end ReadTracking
