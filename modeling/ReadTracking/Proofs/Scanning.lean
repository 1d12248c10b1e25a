import Mathlib.Data.List.Dedup
import ReadTracking.Proofs.Amendments
import ReadTracking.Proofs.Counts

/-!
# Counting without the index

The state of a room is found by range queries in the strands of the room.  Here it is found by
looking at everything that there is: all indexed messages, all recorded gaps and all markers, one
after the other.  For every chronicle that can be reached, and whatever the markers are, both ways
give one state.
-/

set_option autoImplicit false

namespace ReadTracking

open KeyOrder

/-! ## Looking at everything -/

def MarkerBook.furthest {σ : Type} (b : MarkerBook σ) (s : Scope) : Option Nat :=
  ((b.marks.entries.filter fun m => m.1.scope = s).map (·.2.sequence)).max?

def earliest? (es : List Indexed) : Option Indexed :=
  es.find? fun e => es.all fun e' => !decide (before e'.position e.position)

namespace Chronicle

section

variable (c : Chronicle) {σ : Type} (b : MarkerBook σ) (room : RoomId)

def scan (s : Scope) (readTo : Option Nat) : List Indexed :=
  c.events.values.filter fun e => decide (e.scope = s) && readTo.all (· < e.message.sequence)

def gaps (s : Scope) : List Nat := (c.strand s).gaps.keys

def countFrom (s : Scope) (readTo : Option Nat) : ScopeCount :=
  let unread := (c.scan s readTo).countP (·.countable)
  let missing := (c.gaps s).any fun g => readTo.all (· < g)
  { unread := if missing then max unread 1 else unread
    highlights := (c.scan s readTo).countP (·.highlight)
    incomplete := missing }

def scanScope (s : Scope) : ScopeCount := c.countFrom s (b.furthest s)

def place (root : EventId) : Option Position :=
  match c.events.values.find? (·.message.id = root) with
  | some e => some e.position
  | none => (earliest? (c.scan (.ofThread room root) none)).map (·.position)

def roots : List EventId :=
  (c.events.values.filterMap fun e => if e.scope.room = room then e.scope.thread else none).dedup

def scanThreads : List EventId :=
  (c.roots room).mergeSort fun root root' =>
    !decide (before (c.place room root', root') (c.place room root, root))

def scanThread (root : EventId) : ThreadState :=
  let known := c.events.values.any fun e => decide (e.message.id = root ∧ e.message.room = room)
  .ofCount root known (if known then c.scanScope b (.ofThread room root) else {})

def scanRoom : RoomState :=
  let main := c.scanScope b (.ofRoom room)
  let threads := (c.scanThreads room).map (c.scanThread b room)
  let unread := main.unread + ThreadState.total (·.unread) threads
  { room
    mainUnread := main.unread
    mainHighlights := main.highlights
    threads
    unread
    highlights := main.highlights + ThreadState.total (·.highlights) threads
    isUnread := decide (0 < unread)
    incomplete := main.incomplete || threads.any (·.incomplete) }

end

/-! ## Markers -/

theorem furthest_eq {σ : Type} (b : MarkerBook σ) (s : Scope) : b.furthest s = b.readTo s := by
  apply MarkerBook.eq_of_reaches
  intro q
  rw [← MarkerBook.covers_iff_readTo, MarkerBook.covers_iff]
  have hmem : ∀ r, r ∈ (b.marks.entries.filter fun m => m.1.scope = s).map (·.2.sequence) ↔
      ∃ v m, b.mark? s v = some m ∧ m.sequence = r := by
    intro r
    simp only [List.mem_map, List.mem_filter, decide_eq_true_eq, Prod.exists, MarkerBook.mark?,
      Table.get?_eq_some_iff]
    constructor
    · rintro ⟨⟨s', v⟩, m, ⟨hm, rfl⟩, rfl⟩
      exact ⟨v, m, hm, rfl⟩
    · rintro ⟨v, m, hm, rfl⟩
      exact ⟨⟨s, v⟩, m, ⟨hm, rfl⟩, rfl⟩
  constructor
  · rintro ⟨r, hr, hq⟩
    obtain ⟨v, m, hm, rfl⟩ := (hmem r).1 (List.max?_mem hr)
    exact ⟨v, m, hm, hq⟩
  · rintro ⟨v, m, hm, hq⟩
    cases hmax : b.furthest s with
    | none =>
      have hnil := (hmem m.sequence).2 ⟨v, m, hm, rfl⟩
      rw [MarkerBook.furthest, List.max?_eq_none_iff] at hmax
      rw [hmax] at hnil
      cases hnil
    | some r =>
      have hle := (List.max?_eq_some_iff.1 hmax).2 m.sequence ((hmem _).2 ⟨v, m, hm, rfl⟩)
      exact ⟨r, rfl, Nat.le_trans hq hle⟩

/-! ## Counts -/

variable {c : Chronicle}

theorem Sound.mem_values (hc : c.Sound) {e : Indexed} :
    e ∈ c.events.values ↔ c.get? e.message.id = some e := by
  constructor
  · intro h
    obtain ⟨⟨id, e⟩, hmem, rfl⟩ := List.mem_map.1 h
    have he : c.get? id = some e := (Table.get?_eq_some_iff _).2 hmem
    rw [hc.named he]
    exact he
  · intro h
    exact List.mem_map.2 ⟨_, (Table.get?_eq_some_iff _).1 h, rfl⟩

theorem Sound.nodup_values (hc : c.Sound) : c.events.values.Nodup := by
  apply List.Nodup.of_map (fun e => e.message.id)
  have hnames : c.events.values.map (fun e => e.message.id) = c.events.keys := by
    simp only [Table.values, Table.keys, List.map_map]
    apply List.map_congr_left
    intro p hp
    exact hc.named ((Table.get?_eq_some_iff _).2 hp)
  rw [hnames]
  exact Table.nodup_keys _

theorem Sound.nodup_eventsAfter (hc : c.Sound) (s : Scope) (cursor : Option Cursor) :
    (c.eventsAfter s cursor).Nodup := by
  rw [eventsAfter_eq]
  apply List.Nodup.filterMap ?_ (hc.nodup_after s cursor)
  intro id id' e he he'
  rw [← hc.named he, ← hc.named he']

theorem Sound.mem_eventsAfter (hc : c.Sound) {s : Scope} {cursor : Option Cursor} {e : Indexed} :
    e ∈ c.eventsAfter s cursor ↔
      c.get? e.message.id = some e ∧ e.scope = s ∧ cursor.all (·.isBefore e.position) = true := by
  rw [eventsAfter_eq, List.mem_filterMap]
  constructor
  · rintro ⟨id, hid, he⟩
    obtain ⟨e', he', hs, hcut⟩ := hc.mem_after.1 hid
    cases he.symm.trans he'
    rw [hc.named he]
    exact ⟨he, hs, hcut⟩
  · rintro ⟨he, hs⟩
    exact ⟨e.message.id, hc.mem_after.2 ⟨e, he, hs⟩, he⟩

theorem Sound.perm_scan (hc : c.Sound) (s : Scope) (readTo : Option Nat) :
    (c.eventsAfter s (readTo.map .past)).Perm (c.scan s readTo) := by
  apply (List.perm_ext_iff_of_nodup (hc.nodup_eventsAfter s _) (hc.nodup_values.filter _)).2
  intro e
  rw [hc.mem_eventsAfter, List.mem_filter, hc.mem_values, Bool.and_eq_true, decide_eq_true_eq]
  apply and_congr_right
  intro he
  rw [Option.all_map, ← hc.numbered he]
  rfl

theorem any_gaps (c : Chronicle) (s : Scope) (readTo : Option Nat) :
    ((c.gaps s).any fun g => readTo.all (· < g)) = c.hasGapAfter s readTo := by
  rw [hasGapAfter_eq, gaps]
  cases readTo with
  | none =>
    simp only [Strand.hasGapAfter, Table.isEmpty, Table.keys, Option.all_none]
    cases (c.strand s).gaps.entries <;> rfl
  | some q => rfl

theorem Sound.countScope_eq_countFrom (hc : c.Sound) {σ : Type} (b : MarkerBook σ) (s : Scope) :
    countScope c b s = c.countFrom s (b.readTo s) := by
  have hperm := hc.perm_scan s (b.readTo s)
  have hunread := hperm.countP_eq (·.countable)
  have hhighlights : ((c.eventsAfter s ((b.readTo s).map .past)).filter (·.countable)).countP
      (·.highlight) = (c.scan s (b.readTo s)).countP (·.highlight) := by
    rw [← hperm.countP_eq, List.countP_filter]
    congr 1
    funext e
    simp only [Indexed.highlight]
    cases e.countable <;> simp
  simp only [countScope, countFrom, any_gaps, ← List.countP_eq_length_filter, hunread,
    hhighlights]

theorem Sound.countScope_eq_scanScope (hc : c.Sound) {σ : Type} (b : MarkerBook σ) (s : Scope) :
    countScope c b s = c.scanScope b s := by
  rw [scanScope, furthest_eq, hc.countScope_eq_countFrom]

/-! ## Threads -/

theorem Sound.find?_values (hc : c.Sound) (id : EventId) :
    c.events.values.find? (·.message.id = id) = c.get? id := by
  cases hfind : c.events.values.find? (·.message.id = id) with
  | some e =>
    have hname : e.message.id = id := by simpa using List.find?_some hfind
    rw [← hname, hc.mem_values.1 (List.mem_of_find?_eq_some hfind)]
  | none =>
    cases he : c.get? id with
    | none => rfl
    | some e =>
      have hname := hc.named he
      have hmem : e ∈ c.events.values := hc.mem_values.2 (by rw [hname, he])
      exact absurd (decide_eq_true hname) (List.find?_eq_none.1 hfind e hmem)

theorem Sound.any_values (hc : c.Sound) (room : RoomId) (root : EventId) :
    (c.events.values.any fun e => decide (e.message.id = root ∧ e.message.room = room)) =
      c.rootKnown room root := by
  rw [Bool.eq_iff_iff, List.any_eq_true, rootKnown]
  constructor
  · rintro ⟨e, hmem, h⟩
    obtain ⟨rfl, rfl⟩ := of_decide_eq_true h
    rw [hc.mem_values.1 hmem]
    exact beq_self_eq_true _
  · intro h
    cases he : c.get? root with
    | none =>
      rw [he] at h
      cases h
    | some e =>
      rw [he] at h
      have hname := hc.named he
      exact ⟨e, hc.mem_values.2 (by rw [hname, he]), decide_eq_true ⟨hname, eq_of_beq h⟩⟩

theorem Sound.mem_scan_none (hc : c.Sound) {s : Scope} {e : Indexed} :
    e ∈ c.scan s none ↔ c.get? e.message.id = some e ∧ e.scope = s := by
  rw [← (hc.perm_scan s none).mem_iff]
  exact hc.mem_eventsAfter_none

theorem Sound.firstPosition_eq (hc : c.Sound) (s : Scope) :
    (c.strand s).firstPosition = (earliest? (c.scan s none)).map (·.position) := by
  cases hfirst : (c.strand s).entries.first? with
  | none =>
    have hnil : c.scan s none = [] := by
      apply List.eq_nil_iff_forall_not_mem.2
      intro e hmem
      obtain ⟨he, rfl⟩ := hc.mem_scan_none.1 hmem
      have hstands := hc.stands he
      rw [Table.first?_eq_none_iff.1 hfirst] at hstands
      cases hstands
    rw [Strand.firstPosition, hfirst, hnil]
    rfl
  | some entry =>
    obtain ⟨p, id⟩ := entry
    obtain ⟨hp, hleast⟩ := Table.not_before_of_first? hfirst
    obtain ⟨e, he, hs, hpos⟩ := hc.indexed hp
    have hmem : e ∈ c.scan s none := hc.mem_scan_none.2 ⟨by rw [hc.named he, he], hs⟩
    have hbound : ∀ e' ∈ c.scan s none, ¬ before e'.position p := by
      intro e' hmem'
      obtain ⟨he', rfl⟩ := hc.mem_scan_none.1 hmem'
      exact hleast _ _ (hc.stands he')
    rw [Strand.firstPosition, hfirst, Option.map_some]
    cases hfind : earliest? (c.scan s none) with
    | none =>
      -- The message at the first position would have been found.
      apply absurd _ (List.find?_eq_none.1 hfind e hmem)
      apply List.all_eq_true.2
      intro e' hmem'
      rw [hpos, decide_eq_false (hbound e' hmem')]
      rfl
    | some e' =>
      unfold earliest? at hfind
      have hmem' := List.mem_of_find?_eq_some hfind
      have hnot : ¬ before p e'.position := by
        have hall := List.find?_some hfind
        simp only [List.all_eq_true, Bool.not_eq_true', decide_eq_false_iff_not] at hall
        rw [← hpos]
        exact hall e hmem
      rw [Option.map_some, connected hnot (hbound e' hmem')]

theorem Sound.standing_eq_place (hc : c.Sound) (room : RoomId) (root : EventId) :
    c.standing room root = c.place room root := by
  rw [standing, anchor, place, hc.find?_values, position?, hc.firstPosition_eq]
  cases c.get? root <;> rfl

theorem Sound.mem_roots (hc : c.Sound) {room : RoomId} {root : EventId} :
    root ∈ c.roots room ↔ root ∈ c.threads room := by
  rw [roots, List.mem_dedup, List.mem_filterMap, mem_threads, hc.hasThread_iff]
  constructor
  · rintro ⟨e, hmem, h⟩
    split at h
    next hroom =>
      have hs : e.scope = .ofThread room root := by rw [Scope.ofThread, ← hroom, ← h]
      exact ⟨_, e, hc.mem_values.1 hmem, hs⟩
    next => cases h
  · rintro ⟨id, e, he, hs⟩
    refine ⟨e, hc.mem_values.2 (by rw [hc.named he, he]), ?_⟩
    rw [hs]
    exact if_pos rfl

theorem Sound.threads_eq_scan (hc : c.Sound) (room : RoomId) :
    c.threads room = c.scanThreads room := by
  have hrising : (c.threads room).Pairwise fun root root' =>
      before (c.place room root, root) (c.place room root', root') := by
    simp only [← hc.standing_eq_place]
    exact c.rising_standing room
  have hsorted : (c.scanThreads room).Pairwise fun root root' =>
      ¬ before (c.place room root', root') (c.place room root, root) :=
    Table.pairwise_mergeSort_key (fun root => (c.place room root, root)) _
  have hperm : (c.threads room).Perm (c.scanThreads room) := by
    have hroots : (c.threads room).Perm (c.roots room) :=
      (List.perm_ext_iff_of_nodup (c.nodup_threads room) (List.nodup_dedup _)).2
        fun root => hc.mem_roots.symm
    exact hroots.trans (List.mergeSort_perm _ _).symm
  apply List.Perm.eq_of_pairwise _ (hrising.imp fun h => KeyOrder.asymm h) hsorted hperm
  intro root root' _ _ h h'
  exact congrArg Prod.snd (connected h' h)

theorem Sound.threadState_eq_scan (hc : c.Sound) {σ : Type} (b : MarkerBook σ) {room : RoomId}
    {root : EventId} (h : c.rootKnown room root = true ∨ c.hasThread room root = true) :
    threadState c b room root = some (c.scanThread b room root) := by
  rw [threadState, scanThread, hc.any_values, hc.countScope_eq_scanScope]
  cases hknown : c.rootKnown room root with
  | true => rfl
  | false =>
    rw [hknown] at h
    simp [h.resolve_left Bool.false_ne_true]

/-! ## Rooms -/

section

variable {σ : Type} {b : MarkerBook σ} {room : RoomId}

theorem Sound.threads_roomState (hc : c.Sound) (b : MarkerBook σ) (room : RoomId) :
    (roomState c b room).threads = (c.scanThreads room).map (c.scanThread b room) := by
  show (c.threads room).filterMap (threadState c b room) = _
  rw [hc.threads_eq_scan, ← List.filterMap_eq_map]
  apply List.filterMap_congr
  intro root hroot
  rw [← hc.threads_eq_scan, mem_threads] at hroot
  exact hc.threadState_eq_scan b (.inr hroot)

theorem roots_roomState (hc : c.Sound) :
    (roomState c b room).threads.map (·.root) = c.threads room := by
  rw [hc.threads_roomState, hc.threads_eq_scan, List.map_map]
  exact List.map_id _

theorem Sound.roomState_eq_scan (hc : c.Sound) (b : MarkerBook σ) (room : RoomId) :
    roomState c b room = c.scanRoom b room := by
  have hthreads := hc.threads_roomState b room
  have hmain := hc.countScope_eq_scanScope b (.ofRoom room)
  have hany : (roomState c b room).threads.any (·.hasUnread) =
      decide (0 < ThreadState.total (·.unread) (roomState c b room).threads) :=
    any_eq_pos_foldr (·.unread) fun t ht => (sane_of_mem ht).hasUnread
  have hflag : (roomState c b room).isUnread =
      decide (0 < (c.scanScope b (.ofRoom room)).unread +
        ThreadState.total (·.unread) (roomState c b room).threads) := by
    show (decide (0 < (countScope c b (.ofRoom room)).unread) ||
      (roomState c b room).threads.any (·.hasUnread)) = _
    rw [hany, hmain, ← Bool.decide_or, decide_eq_decide]
    omega
  unfold scanRoom
  rw [← hthreads]
  dsimp only
  rw [← hflag, ← hmain]
  rfl

/-- The state of a room, and of its threads one by one, as a plain look at all messages, gaps and
markers finds it. -/
structure Scanned (c : Chronicle) (b : MarkerBook σ) (room : RoomId) : Prop where
  state : roomState c b room = c.scanRoom b room
  listed : ∀ root, root ∈ (roomState c b room).threads.map (·.root) ↔
    ∃ id e, c.get? id = some e ∧ e.scope = .ofThread room root
  once : ((roomState c b room).threads.map (·.root)).Nodup
  ordered : ((roomState c b room).threads.map (·.root)).Pairwise fun root root' =>
    before (c.place room root, root) (c.place room root', root')
  placed : ∀ t ∈ (roomState c b room).threads, ∃ p, c.place room t.root = some p
  alone : ∀ t ∈ (roomState c b room).threads, threadState c b room t.root = some t
  scanned : ∀ root t, threadState c b room root = some t → t = c.scanThread b room root
  absent : ∀ root, threadState c b room root = none ↔
    (∀ e, c.get? root = some e → e.message.room ≠ room) ∧
      ∀ id e, c.get? id = some e → e.scope ≠ .ofThread room root
  highlights : (roomState c b room).mainHighlights ≤ (roomState c b room).mainUnread ∧
    (∀ t ∈ (roomState c b room).threads, t.highlights ≤ t.unread) ∧
    (roomState c b room).highlights ≤ (roomState c b room).unread

theorem Sound.threadState_cases (hc : c.Sound) (b : MarkerBook σ) (room : RoomId)
    (root : EventId) : threadState c b room root = some (c.scanThread b room root) ∧
      (c.rootKnown room root = true ∨ c.hasThread room root = true) ∨
    threadState c b room root = none ∧
      c.rootKnown room root = false ∧ c.hasThread room root = false := by
  by_cases h : c.rootKnown room root = true ∨ c.hasThread room root = true
  · exact .inl ⟨hc.threadState_eq_scan b h, h⟩
  · simp only [not_or, Bool.not_eq_true] at h
    right
    simp [threadState, h]

theorem Sound.exists_place (hc : c.Sound) {root : EventId} (h : root ∈ c.threads room) :
    ∃ p, c.place room root = some p := by
  obtain ⟨p, id, hp⟩ := hc.threaded (mem_threads.1 h)
  rw [← hc.standing_eq_place, standing, anchor]
  cases c.position? root with
  | some p => exact ⟨p, rfl⟩
  | none =>
    cases hfirst : (c.strand (.ofThread room root)).entries.first? with
    | some entry => exact ⟨entry.1, by simp [Strand.firstPosition, hfirst]⟩
    | none =>
      rw [Table.first?_eq_none_iff.1 hfirst] at hp
      cases hp

theorem Sound.scanned (hc : c.Sound) (b : MarkerBook σ) (room : RoomId) : c.Scanned b room where
  state := hc.roomState_eq_scan b room
  listed root := by rw [roots_roomState hc, mem_threads, hc.hasThread_iff]
  once := by
    rw [roots_roomState hc]
    exact c.nodup_threads room
  ordered := by
    simp only [roots_roomState hc, ← hc.standing_eq_place]
    exact c.rising_standing room
  placed t ht := by
    apply hc.exists_place
    rw [← roots_roomState hc]
    exact List.mem_map_of_mem ht
  alone t ht := by
    obtain ⟨root, -, hroot⟩ := List.mem_filterMap.1 ht
    rcases hc.threadState_cases b room root with ⟨hsome, -⟩ | ⟨hnone, -⟩
    · cases hsome.symm.trans hroot
      exact hsome
    · cases hnone.symm.trans hroot
  scanned root t ht := by
    rcases hc.threadState_cases b room root with ⟨hsome, -⟩ | ⟨hnone, -⟩
    · exact Option.some.inj (ht.symm.trans hsome)
    · cases hnone.symm.trans ht
  absent root := by
    have hknown : (∀ e, c.get? root = some e → e.message.room ≠ room) ↔
        c.rootKnown room root = false := by
      unfold rootKnown
      cases c.get? root <;> simp
    have hthread : (∀ id e, c.get? id = some e → e.scope ≠ .ofThread room root) ↔
        c.hasThread room root = false := by
      rw [← Bool.not_eq_true, hc.hasThread_iff]
      simp
    rw [hknown, hthread]
    rcases hc.threadState_cases b room root with ⟨hsome, h⟩ | ⟨hnone, h⟩
    · rw [hsome]
      simp only [reduceCtorEq, false_iff, not_and_or, Bool.not_eq_false]
      exact h
    · exact ⟨fun _ => h, fun _ => hnone⟩
  highlights := by
    have hthreads : ∀ t ∈ (roomState c b room).threads, t.Sane c room :=
      fun t ht => sane_of_mem ht
    have htotal := total_highlights_le hthreads
    have hmain := highlights_le_unread c b (.ofRoom room)
    exact ⟨hmain, fun t ht => (hthreads t ht).highlights, Nat.add_le_add hmain htotal⟩

end

/-- Whatever is done to a chronicle that held nothing at first, and wherever the markers of a book
are, the state of every room is the one that is found without the index: by looking at all
messages, at all gaps and at all markers. -/
theorem room_states_found_by_scanning (judge : Judge) (as : List Amendment) {σ : Type}
    (b : MarkerBook σ) (room : RoomId) : ((empty judge).amendAll as).Scanned b room := by
  have hsound : ((empty judge).amendAll as).Sound :=
    amendAll_keeps (sound_empty judge) fun a _ _ h => h.amend a
  exact hsound.scanned b room

end Chronicle

end ReadTracking
