import ReadTracking.Backing.Shelf
import ReadTracking.Proofs.Honouring
import ReadTracking.Proofs.MarkingRead

/-!
# Receipts for a whole room

A receipt for a whole room moves the marker of every scope of the room to the last message at or
before the sequence of the receipt.  All messages up to there are read.  A gap up to there is read
too if it is not beyond that last message; a gap between that message and the sequence stays, and
with it the scope stays unread.
-/

set_option autoImplicit false

namespace ReadTracking

open KeyOrder

/-! ## The floor of a scope -/

theorem all_lt_max (o o' : Option Nat) (n : Nat) :
    (max o o').all (· < n) = true ↔ o.all (· < n) = true ∧ o'.all (· < n) = true := by
  cases o with
  | none => simp
  | some r =>
    cases o' with
    | none => simp
    | some r' =>
      simp only [Option.max_some_some, Option.all_some, decide_eq_true_eq]
      omega

theorem MarkerBook.readTo_eq_max {σ : Type} {b b' : MarkerBook σ} {s : Scope} {o : Option Nat}
    (h : ∀ n, b'.covers s n = true ↔ b.covers s n = true ∨ ∃ r, o = some r ∧ n ≤ r) :
    b'.readTo s = max (b.readTo s) o := by
  apply eq_of_reaches
  intro n
  rw [← covers_iff_readTo, h, covers_iff_readTo]
  cases b.readTo s with
  | none => simp
  | some r =>
    cases o with
    | none => simp
    | some r' =>
      simp only [Option.max_some_some, Option.some.injEq, exists_eq_left']
      omega

theorem Turn.apart_floors (c : Chronicle) (room : RoomId) (q : Nat) :
    Apart (floors c room q) := by
  apply List.pairwise_filterMap.2
  apply (c.nodup_scopes room).imp
  intro s s' hne u hu u' hu' he
  obtain ⟨_, -, rfl⟩ := Option.map_eq_some_iff.1 hu
  obtain ⟨_, -, rfl⟩ := Option.map_eq_some_iff.1 hu'
  exact hne he

namespace Chronicle

section

variable (c : Chronicle) (s : Scope) (readTo : Option Nat) (q : Nat)

def IsFloor (u : Update) : Prop :=
  ∃ e, c.get? u.event = some e ∧ e.scope = u.scope ∧ e.position.sequence = u.sequence ∧
    e.position.sequence ≤ q ∧ ∀ id e', c.get? id = some e' → e'.scope = u.scope →
      e'.position.sequence ≤ q → ¬ before e.position e'.position

def floorSequence : Option Nat := (c.floor s q).map (·.position.sequence)

/-- A scope has a gap at or before a sequence that no message up to there reaches, and that is not
read. -/
def Stranded : Prop :=
  ∃ g ∈ c.gaps s, g ≤ q ∧ (∀ r, readTo = some r → r < g) ∧
    ∀ id e, c.get? id = some e → e.scope = s → e.message.sequence ≤ q → e.message.sequence < g

end

variable {c : Chronicle} {s : Scope} {readTo : Option Nat} {q : Nat}

theorem Sound.floor_eq_none (hc : c.Sound) (h : c.floor s q = none) {id : EventId} {e : Indexed}
    (he : c.get? id = some e) (hs : e.scope = s) : q < e.position.sequence := by
  rw [floor_eq] at h
  exact Nat.lt_of_not_le (of_decide_eq_false (hc.last_filter_none h he hs))

theorem Sound.floor_eq_some_iff (hc : c.Sound) {u : Update} :
    (c.floor s q).map (fun e => ⟨s, e.message.id, e.position.sequence⟩) = some u ↔
      u.scope = s ∧ c.IsFloor q u := by
  rw [Option.map_eq_some_iff]
  constructor
  · rintro ⟨e, hfloor, rfl⟩
    obtain ⟨he, hs, hq, hmax⟩ := hc.floor_eq_some hfloor
    exact ⟨rfl, e, he, hs, rfl, hq, fun id e' => hmax⟩
  · obtain ⟨scope, event, sequence⟩ := u
    rintro ⟨rfl, e, he, hs, hsequence, hq, hmax⟩
    dsimp only at he hs hmax hsequence
    subst hs hsequence
    cases hc.named he
    exact ⟨e, hc.floor_eq_of_last he hq hmax, rfl⟩

theorem Sound.floorSequence_eq_some_iff (hc : c.Sound) {n : Nat} :
    c.floorSequence s q = some n ↔ ∃ u : Update, u.scope = s ∧ c.IsFloor q u ∧ u.sequence = n := by
  have hmap : c.floorSequence s q =
      ((c.floor s q).map fun e => ⟨s, e.message.id, e.position.sequence⟩).map Update.sequence := by
    rw [Option.map_map]
    rfl
  rw [hmap, Option.map_eq_some_iff]
  simp only [hc.floor_eq_some_iff, and_assoc]

theorem Sound.mem_floors (hc : c.Sound) {room : RoomId} {u : Update} :
    u ∈ Turn.floors c room q ↔ u.scope.room = room ∧ c.IsFloor q u := by
  constructor
  · intro hu
    obtain ⟨s, hs, hfloor⟩ := List.mem_filterMap.1 hu
    obtain ⟨rfl, hu⟩ := hc.floor_eq_some_iff.1 hfloor
    exact ⟨room_of_mem_scopes hs, hu⟩
  · rintro ⟨rfl, hu⟩
    have hscope : u.scope ∈ c.scopes u.scope.room := by
      obtain ⟨e, he, hs, -⟩ := id hu
      rw [← hs]
      exact hc.mem_scopes he
    exact List.mem_filterMap.2 ⟨u.scope, hscope, hc.floor_eq_some_iff.2 ⟨rfl, hu⟩⟩

theorem Sound.all_floorSequence (hc : c.Sound) {n : Nat} :
    (c.floorSequence s q).all (· < n) = true ↔ ∀ id e, c.get? id = some e → e.scope = s →
      e.message.sequence ≤ q → e.message.sequence < n := by
  unfold floorSequence
  cases hfloor : c.floor s q with
  | none =>
    simp only [Option.map_none, Option.all_none, true_iff]
    intro id e he hs hq
    have hlt := hc.floor_eq_none hfloor he hs
    rw [hc.numbered he] at hlt
    omega
  | some f =>
    obtain ⟨hf, hs, hq, hmax⟩ := hc.floor_eq_some hfloor
    simp only [Option.map_some, Option.all_some, decide_eq_true_eq]
    constructor
    · intro hn id e he hs' hq'
      rw [← hc.numbered he] at hq' ⊢
      have hle : e.position.sequence ≤ f.position.sequence := by
        apply Nat.le_of_not_lt
        intro hlt
        exact hmax he hs' hq' ((pairBefore_iff _ _).2 (.inl hlt))
      omega
    · intro hall
      rw [hc.numbered hf] at hq ⊢
      exact hall _ f hf hs hq

/-! ## Counting from the floor -/

theorem Sound.scan_floor (hc : c.Sound) (s : Scope) (readTo : Option Nat) (q : Nat) :
    c.scan s (max readTo (c.floorSequence s q)) = c.scan s (max readTo (some q)) := by
  apply List.filter_congr
  intro e he
  rw [Bool.eq_iff_iff, Bool.and_eq_true, Bool.and_eq_true, decide_eq_true_eq, all_lt_max,
    all_lt_max, hc.all_floorSequence]
  apply and_congr_right
  intro hs
  apply and_congr_right
  intro _
  simp only [Option.all_some, decide_eq_true_eq]
  constructor
  · intro hall
    apply Nat.lt_of_not_le
    intro hle
    exact Nat.lt_irrefl _ (hall _ e (hc.mem_values.1 he) hs hle)
  · intro hlt id e' _ _ hle
    omega

/-- The gaps beyond the floor are those beyond the sequence, and the stranded ones. -/
theorem Sound.any_gaps_floor (hc : c.Sound) :
    ((c.gaps s).any fun g => (max readTo (c.floorSequence s q)).all (· < g)) = true ↔
      ((c.gaps s).any fun g => (max readTo (some q)).all (· < g)) = true ∨
        c.Stranded s readTo q := by
  simp only [List.any_eq_true, all_lt_max, hc.all_floorSequence, Stranded]
  simp only [Option.all_eq_true, decide_eq_true_eq, Option.some.injEq, forall_eq']
  constructor
  · rintro ⟨g, hg, hbehind, hfloor⟩
    by_cases hle : g ≤ q
    · exact .inr ⟨g, hg, hle, hbehind, hfloor⟩
    · exact .inl ⟨g, hg, hbehind, Nat.lt_of_not_le hle⟩
  · rintro (⟨g, hg, hbehind, hlt⟩ | ⟨g, hg, -, hbehind, hfloor⟩)
    · exact ⟨g, hg, hbehind, fun _ _ _ _ hle => Nat.lt_of_le_of_lt hle hlt⟩
    · exact ⟨g, hg, hbehind, hfloor⟩

/-- Nothing but a stranded gap distinguishes a scope that is read up to its floor from one that is
read up to the sequence. -/
theorem Sound.countFrom_floor (hc : c.Sound) (h : ¬ c.Stranded s readTo q) :
    c.countFrom s (max readTo (c.floorSequence s q)) = c.countFrom s (max readTo (some q)) := by
  have hgaps : ((c.gaps s).any fun g => (max readTo (c.floorSequence s q)).all (· < g)) =
      (c.gaps s).any fun g => (max readTo (some q)).all (· < g) := by
    rw [Bool.eq_iff_iff, hc.any_gaps_floor, or_iff_left h]
  unfold countFrom
  rw [hc.scan_floor, hgaps]

theorem Sound.countFrom_floor_of_stranded (hc : c.Sound) (h : c.Stranded s readTo q) :
    c.countFrom s (max readTo (c.floorSequence s q)) =
      { c.countFrom s (max readTo (some q)) with
        unread := max (c.countFrom s (max readTo (some q))).unread 1, incomplete := true } := by
  unfold countFrom
  rw [hc.scan_floor, hc.any_gaps_floor.2 (.inr h)]
  simp only [if_true, ScopeCount.mk.injEq, and_self, and_true]
  split <;> omega

theorem one_le_unread_of_incomplete (c : Chronicle) (s : Scope) (readTo : Option Nat)
    (h : (c.countFrom s readTo).incomplete = true) : 1 ≤ (c.countFrom s readTo).unread := by
  unfold countFrom at h ⊢
  dsimp only at h ⊢
  rw [if_pos h]
  exact Nat.le_max_right _ _

theorem Sound.countFrom_floor_of_incomplete (hc : c.Sound)
    (h : c.Stranded s readTo q → (c.countFrom s (max readTo (some q))).incomplete = true) :
    c.countFrom s (max readTo (c.floorSequence s q)) = c.countFrom s (max readTo (some q)) := by
  by_cases hstranded : c.Stranded s readTo q
  · have hincomplete := h hstranded
    have hunread := c.one_le_unread_of_incomplete s _ hincomplete
    rw [hc.countFrom_floor_of_stranded hstranded, Nat.max_eq_left hunread, ← hincomplete]
  · exact hc.countFrom_floor hstranded

end Chronicle

/-! ## The state of a room comes from its counts -/

section

variable {σ : Type} {c : Chronicle} {b b' : MarkerBook σ} {room : RoomId}

theorem threadState_congr_count
    (h : ∀ s : Scope, s.room = room → countScope c b' s = countScope c b s) (root : EventId) :
    threadState c b' room root = threadState c b room root := by
  unfold threadState
  rw [h _ rfl]

theorem roomState_congr_count
    (h : ∀ s : Scope, s.room = room → countScope c b' s = countScope c b s) :
    roomState c b' room = roomState c b room := by
  have hthreads : (c.threads room).filterMap (threadState c b' room) =
      (c.threads room).filterMap (threadState c b room) :=
    List.filterMap_congr fun root _ => threadState_congr_count h root
  unfold roomState
  rw [h _ rfl, hthreads]

theorem countScope_of_not_mem_scopes (hc : c.Sound) {s : Scope} (hs : s ∉ c.scopes s.room) :
    countScope c b s = {} := by
  have hnone : ∀ id e, c.get? id = some e → e.scope ≠ s := by
    rintro id e he rfl
    exact hs (hc.mem_scopes he)
  have hgaps : c.gaps s = [] := by
    apply List.eq_nil_iff_forall_not_mem.2
    intro g hg
    obtain ⟨room, _ | root⟩ := s
    · exact hs List.mem_cons_self
    · have hthread : c.hasThread room root = true :=
        Chronicle.hasThread_of_gap (Table.contains_iff.2 (Table.mem_keys.1 hg))
      exact hs (List.mem_cons_of_mem _ (List.mem_map_of_mem (Chronicle.mem_threads.2 hthread)))
  rw [countScope_of_no_message hc hnone, hgaps]
  rfl

end

def MarkerBook.raised {σ : Type} (b : MarkerBook σ) (ss : List Scope) (event : EventId) (q : Nat)
    (v : Visibility) (now : Nat) : MarkerBook σ :=
  (b.setAll v now (ss.map fun s => ⟨s, event, q⟩)).1

theorem MarkerBook.readTo_raised {σ : Type} (b : MarkerBook σ) {ss : List Scope} {s : Scope}
    (hs : s ∈ ss) (event : EventId) (q : Nat) (v : Visibility) (now : Nat) :
    (b.raised ss event q v now).readTo s = max (b.readTo s) (some q) := by
  apply readTo_eq_max
  intro n
  rw [raised, covers_setAll]
  apply or_congr_right
  simp only [List.mem_map, Option.some.injEq, exists_eq_left']
  constructor
  · rintro ⟨_, ⟨s', -, rfl⟩, -, hn⟩
    exact hn
  · intro hn
    exact ⟨_, ⟨s, hs, rfl⟩, rfl, hn⟩

/-! ## The answer -/

section

variable {σ : Type} [Backing σ]

/-- A receipt of one visibility was applied to the whole room of a message: `moved` are the scopes
whose markers moved, with the messages to which they did. -/
structure Answer.ReadsRoom (a : Answer σ) (t : Tracker σ) (v : Visibility) (room : RoomId)
    (event : EventId) (q : Nat) (moved : List Update) : Prop where
  moved_iff : ∀ u, u ∈ moved ↔ u.scope.room = room ∧ t.chronicle.IsFloor q u ∧
    ∀ m, t.book.mark? u.scope v = some m → m.sequence < u.sequence
  apart : Apart moved
  written : ∃ advance, t.book.Moves v t.ambient.wallClock moved a.tracker.book advance ∧
    a.reply = .ok (Turn.warnings v moved advance ++
      (t.sends.due t.ambient.elapsed).map Action.ofSend)
  sends : a.tracker.sends = (t.sends.release t.ambient.elapsed).1
  read : ∀ s : Scope, s.room = room →
    a.tracker.book.readTo s = max (t.book.readTo s) (t.chronicle.floorSequence s q)
  counts : ∀ s : Scope, s.room = room → ¬ t.chronicle.Stranded s (t.book.readTo s) q →
    countScope t.chronicle a.tracker.book s =
      t.chronicle.countFrom s (max (t.book.readTo s) (some q))
  stranded : ∀ s : Scope, s.room = room → t.chronicle.Stranded s (t.book.readTo s) q →
    countScope t.chronicle a.tracker.book s =
      { t.chronicle.countFrom s (max (t.book.readTo s) (some q)) with
        unread := max (t.chronicle.countFrom s (max (t.book.readTo s) (some q))).unread 1
        incomplete := true }
  states : (∀ s : Scope, s.room = room → t.chronicle.Stranded s (t.book.readTo s) q →
      (t.chronicle.countFrom s (max (t.book.readTo s) (some q))).incomplete = true) →
    a.tracker.roomState room = roomState t.chronicle
      (t.book.raised (t.chronicle.scopes room) event q v t.ambient.wallClock) room ∧
    ∀ root, a.tracker.threadState room root = threadState t.chronicle
      (t.book.raised (t.chronicle.scopes room) event q v t.ambient.wallClock) room root
  elsewhere : ∀ s : Scope, s.room ≠ room → a.tracker.book.readTo s = t.book.readTo s
  others : ∀ room', room' ≠ room → a.tracker.roomState room' = t.roomState room' ∧
    ∀ root, a.tracker.threadState room' root = t.threadState room' root
  chronicle : a.tracker.chronicle = t.chronicle
  focus : a.tracker.focus = t.focus
  awaited : a.tracker.awaited = t.awaited
  held : a.tracker.held = t.held

namespace MarkerBook

variable {c : Chronicle} {room : RoomId} {s : Scope} {q : Nat}

def upToFloors (b : MarkerBook σ) (c : Chronicle) (room : RoomId) (q : Nat) (v : Visibility)
    (now : Nat) : MarkerBook σ :=
  (b.advanceAll (Turn.floors c room q) v now).1

variable (b : MarkerBook σ) (v : Visibility) (now : Nat)

theorem readTo_upToFloors (hc : c.Sound) (hs : s.room = room) :
    (b.upToFloors c room q v now).readTo s = max (b.readTo s) (c.floorSequence s q) := by
  subst hs
  apply readTo_eq_max
  intro n
  rw [upToFloors, covers_advanceAll]
  apply or_congr_right
  simp only [hc.mem_floors, hc.floorSequence_eq_some_iff]
  constructor
  · rintro ⟨u, ⟨-, hu⟩, rfl, hn⟩
    exact ⟨_, ⟨u, rfl, hu, rfl⟩, hn⟩
  · rintro ⟨_, ⟨u, rfl, hu, rfl⟩, hn⟩
    exact ⟨u, ⟨rfl, hu⟩, rfl, hn⟩

theorem readTo_upToFloors_of_ne (hc : c.Sound) (hs : s.room ≠ room) :
    (b.upToFloors c room q v now).readTo s = b.readTo s := by
  apply readTo_eq_of_covers
  intro n
  rw [upToFloors, covers_advanceAll, or_iff_left]
  rintro ⟨u, hu, rfl, -⟩
  exact hs (hc.mem_floors.1 hu).1

theorem countScope_upToFloors (hc : c.Sound) (hs : s.room = room) :
    countScope c (b.upToFloors c room q v now) s =
      c.countFrom s (max (b.readTo s) (c.floorSequence s q)) := by
  rw [hc.countScope_eq_countFrom, readTo_upToFloors b v now hc hs]

theorem countScope_upToFloors_of_ne (hc : c.Sound) (hs : s.room ≠ room) :
    countScope c (b.upToFloors c room q v now) s = countScope c b s := by
  rw [hc.countScope_eq_countFrom, hc.countScope_eq_countFrom,
    readTo_upToFloors_of_ne b v now hc hs]

/-- Where no stranded gap shows, all scopes count as if they were read up to the sequence. -/
theorem countScope_upToFloors_eq_raised (hc : c.Sound) (event : EventId)
    (hgap : ∀ s : Scope, s.room = room → c.Stranded s (b.readTo s) q →
      (c.countFrom s (max (b.readTo s) (some q))).incomplete = true) (s : Scope)
    (hs : s.room = room) : countScope c (b.upToFloors c room q v now) s =
      countScope c (b.raised (c.scopes room) event q v now) s := by
  subst hs
  by_cases hscope : s ∈ c.scopes s.room
  · rw [countScope_upToFloors b v now hc rfl, hc.countScope_eq_countFrom, readTo_raised b hscope]
    exact hc.countFrom_floor_of_incomplete (hgap s rfl)
  · rw [countScope_of_not_mem_scopes hc hscope, countScope_of_not_mem_scopes hc hscope]

end MarkerBook

namespace Tracker

variable {t : Tracker σ} {event : EventId} {e : Indexed}

theorem receipt_room_eq (he : t.chronicle.get? event = some e) (place : RoomId) (v : Visibility) :
    ∃ reported notices, t.receipt place t.reader event v .room =
      ({ tracker := { t with
          book := t.book.upToFloors t.chronicle e.scope.room e.position.sequence v
            t.ambient.wallClock
          reported }
         notices
         actions := Turn.warnings v
          (t.book.setAll v t.ambient.wallClock
            (Turn.floors t.chronicle e.scope.room e.position.sequence)).2
          (t.book.advanceAll
            (Turn.floors t.chronicle e.scope.room e.position.sequence) v t.ambient.wallClock).2.2
         dated := true } : Turn σ).release.done := by
  obtain ⟨reported, notices, hreport⟩ := (({ tracker := t } : Turn σ).readRoomElsewhere e.scope.room
    e.position.sequence v).report_eq e.scope.room
  refine ⟨reported, notices, ?_⟩
  simp only [receipt, if_true, he, Turn.applyReceipt]
  rw [hreport, Turn.readRoomElsewhere_eq]
  dsimp only
  rw [MarkerBook.moved_advanceAll, List.nil_append]
  rfl

theorem readsRoom (hc : t.chronicle.Sound) (he : t.chronicle.get? event = some e) (place : RoomId)
    (v : Visibility) : ∃ moved, (t.receipt place t.reader event v .room).ReadsRoom t v
      e.message.room event e.message.sequence moved := by
  have hapart := Turn.apart_floors t.chronicle e.message.room e.message.sequence
  have hmoved := MarkerBook.moved_setAll hapart t.book v t.ambient.wallClock
  have hmoves := t.book.moves_advanceAll hapart v t.ambient.wallClock
  obtain ⟨reported, notices, hanswer⟩ := receipt_room_eq he place v
  rw [hc.housed he, hc.numbered he] at hanswer
  rw [hanswer]
  refine ⟨_, {
    moved_iff := ?_
    apart := hapart.sublist (MarkerBook.sublist_setAll _ _ _ _)
    written := ⟨_, hmoves, ?_⟩
    sends := rfl
    read := fun s => t.book.readTo_upToFloors v _ hc
    counts := fun s hs h => (t.book.countScope_upToFloors v _ hc hs).trans (hc.countFrom_floor h)
    stranded := fun s hs h =>
      (t.book.countScope_upToFloors v _ hc hs).trans (hc.countFrom_floor_of_stranded h)
    states := ?_
    elsewhere := fun s => t.book.readTo_upToFloors_of_ne v _ hc
    others := ?_
    chronicle := rfl
    focus := rfl
    awaited := rfl
    held := rfl }⟩
  · intro u
    rw [hmoved, List.mem_filter, hc.mem_floors, and_assoc, Bool.not_eq_true', ← Bool.not_eq_true,
      MarkerBook.isStale_iff]
    simp
  · rw [← SendQueue.map_release]
    rfl
  · intro hgap
    have hcount := t.book.countScope_upToFloors_eq_raised v t.ambient.wallClock hc event hgap
    exact ⟨roomState_congr_count hcount, threadState_congr_count hcount⟩
  · intro room' hne
    have hcount : ∀ s : Scope, s.room = room' → countScope t.chronicle
        (t.book.upToFloors t.chronicle e.message.room e.message.sequence v t.ambient.wallClock) s =
          countScope t.chronicle t.book s := by
      rintro s rfl
      exact t.book.countScope_upToFloors_of_ne v _ hc hne
    exact ⟨roomState_congr_count hcount, threadState_congr_count hcount⟩

/-- Whatever happened before, and whether the storage fails or not: a receipt of the reader for a
whole room and an indexed message moves the marker of every scope of that room to the last message
up to the sequence of the message.  Every scope then counts what it would count if it were read up
to that sequence, except that it stays unread and incomplete where a gap lies between its last
message and the sequence.  All other rooms stay as they are. -/
theorem room_receipts_read_to_the_floor {ambient : Ambient} {policy : Policy} {reader : UserId}
    {s : σ} (ht : (openOver ambient policy reader s).1 = .ok t) {ms : List Moment}
    (he : (t.after ms).chronicle.get? event = some e) (place : RoomId) (v : Visibility) :
    ∃ moved, ((t.after ms).handle (.receipt place reader event v .room)).ReadsRoom (t.after ms) v
      e.message.room event e.message.sequence moved := by
  obtain ⟨book, rfl, -⟩ := eq_fresh_of_openOver ht
  have hsound : ((fresh ambient policy reader book).after ms).chronicle.Sound :=
    sound_after (Chronicle.sound_empty _) ms
  have hreader : ((fresh ambient policy reader book).after ms).reader = reader := reader_after ms
  have hreads := readsRoom hsound he place v
  rw [hreader] at hreads
  exact hreads

/-- A limited batch brings messages of the main timeline and of a thread: a receipt for its last
message reads both of them across the gap. -/
theorem room_receipts_read_to_the_floor_across_a_gap :
    let room : RoomId := ⟨"!r"⟩
    let post (id : String) (q : Nat) (content : Content) : Message :=
      ⟨⟨id⟩, room, ⟨"@bot"⟩, q, content, false⟩
    let ms : List Moment :=
      [.command (.receive room [post "$1" 1 .plain, post "$2" 2 (.threadReply ⟨"$1"⟩)] false),
        .command (.receive room [post "$3" 3 .plain, post "$4" 4 (.threadReply ⟨"$1"⟩)] true),
        .command (.receive room [post "$5" 5 (.threadReply ⟨"$1"⟩)] false)]
    let t := fresh .counting {} ⟨"@me"⟩ (⟨.empty, .empty, .empty⟩ : MarkerBook Shelf)
    let a := (t.after ms).handle (.receipt room ⟨"@me"⟩ ⟨"$4"⟩ .shared .room)
    (∃ moved, a.ReadsRoom (t.after ms) .shared room ⟨"$4"⟩ 4 moved) ∧
      a.tracker.book.readTo (.ofRoom room) = some 3 ∧
      a.tracker.book.readTo (.ofThread room ⟨"$1"⟩) = some 4 ∧
      (((t.after ms).roomState room).unread, (a.tracker.roomState room).unread) = (5, 1) ∧
      (a.tracker.roomState room).incomplete = false := by
  intro room post ms t a
  have ht : (openOver .counting {} ⟨"@me"⟩ Shelf.empty).1 = .ok t := rfl
  have he : (t.after ms).chronicle.get? ⟨"$4"⟩ = some
      ⟨post "$4" 4 (.threadReply ⟨"$1"⟩), ⟨4, 3⟩, .ofThread room ⟨"$1"⟩, .threadReply, true⟩ := by
    decide
  exact ⟨room_receipts_read_to_the_floor ht he room .shared, by decide, by decide, by decide,
    by decide⟩

/-- A limited batch brings a message of the main timeline only.  A receipt for that message leaves
the thread unread and incomplete, although all its messages and its gap are at or before it. -/
theorem room_receipt_strands_a_gap :
    let room : RoomId := ⟨"!r"⟩
    let post (id : String) (q : Nat) (content : Content) : Message :=
      ⟨⟨id⟩, room, ⟨"@bot"⟩, q, content, false⟩
    let ms : List Moment :=
      [.command (.receive room [post "$1" 1 .plain, post "$2" 2 (.threadReply ⟨"$1"⟩)] false),
        .command (.receive room [post "$5" 5 .plain] true)]
    let t := fresh .counting {} ⟨"@me"⟩ (⟨.empty, .empty, .empty⟩ : MarkerBook Shelf)
    let a := (t.after ms).handle (.receipt room ⟨"@me"⟩ ⟨"$5"⟩ .shared .room)
    let thread : Scope := .ofThread room ⟨"$1"⟩
    (openOver .counting {} ⟨"@me"⟩ Shelf.empty).1 = .ok t ∧
      ((t.after ms).chronicle.get? ⟨"$5"⟩).map (·.message.sequence) = some 5 ∧
      countScope a.tracker.chronicle a.tracker.book thread = ⟨1, 0, true⟩ ∧
      (t.after ms).chronicle.countFrom thread (max ((t.after ms).book.readTo thread) (some 5)) =
        ⟨0, 0, false⟩ ∧
      (a.tracker.roomState room).unread = 1 ∧ (a.tracker.roomState room).incomplete = true := by
  decide

end Tracker

end

end ReadTracking
