import ReadTracking.Proofs.StorageAudit
import ReadTracking.Session.State

/-!
# Audits that hold

The audited relations between the parts of a room state hold for every tracker, because the
state is made of those parts.  The relations between markers and storage hold where the book is
written through, and those over time hold where no scope was ever read further than it is now.
A session whose tracker is written through therefore never halts because of an audit.
-/

set_option autoImplicit false

namespace ReadTracking

open Backing

/-! ## Rooms -/

section Rooms

variable {σ : Type} (c : Chronicle) (b : MarkerBook σ)

theorem highlights_le_unread (s : Scope) :
    (countScope c b s).highlights ≤ (countScope c b s).unread := by
  simp only [countScope]
  refine Nat.le_trans (List.length_filter_le _ _) ?_
  split
  · exact Nat.le_max_left _ _
  · exact Nat.le_refl _

structure ThreadState.Sane (c : Chronicle) (room : RoomId) (t : ThreadState) : Prop where
  hasUnread : t.hasUnread = decide (0 < t.unread)
  rootKnown : t.rootKnown = c.rootKnown room t.root
  unknown : t.rootKnown = false → t.unread = 0
  highlights : t.highlights ≤ t.unread

variable {c b} {room : RoomId}

theorem sane_of_threadState {root : EventId} {t : ThreadState}
    (h : threadState c b room root = some t) : t.Sane c room := by
  unfold threadState at h
  split at h
  next hk =>
    cases h
    exact ⟨rfl, hk.symm, nofun, highlights_le_unread c b _⟩
  next hk =>
    split at h
    next =>
      cases h
      exact ⟨rfl, (Bool.not_eq_true _ ▸ hk).symm, fun _ => rfl, Nat.le_refl _⟩
    next => cases h

theorem sane_of_mem {t : ThreadState} (h : t ∈ (roomState c b room).threads) :
    t.Sane c room := by
  obtain ⟨root, -, hroot⟩ := List.mem_filterMap.1 h
  exact sane_of_threadState hroot

theorem total_highlights_le {threads : List ThreadState}
    (h : ∀ t ∈ threads, t.Sane c room) :
    ThreadState.total (·.highlights) threads ≤ ThreadState.total (·.unread) threads := by
  induction threads with
  | nil => exact Nat.le_refl _
  | cons t threads ih =>
    have ht := (h t List.mem_cons_self).highlights
    have hs := ih fun t ht => h t (List.mem_cons_of_mem _ ht)
    simp only [ThreadState.total, List.foldr_cons] at hs ⊢
    omega

theorem roomUnreadFault_roomState : Check.roomUnreadFault (roomState c b room) = none := by
  unfold Check.roomUnreadFault
  have hflag : (roomState c b room).isUnread = (decide (0 < (roomState c b room).mainUnread) ||
      (roomState c b room).threads.any (·.hasUnread)) := rfl
  have hnone : (roomState c b room).threads.find?
      (fun t => t.hasUnread != decide (0 < t.unread)) = none := by
    refine List.find?_eq_none.2 fun t ht => ?_
    simp [(sane_of_mem ht).hasUnread]
  simp [hflag, hnone]

theorem totalsFault_roomState : Check.totalsFault (roomState c b room) = none := by
  have hu : (roomState c b room).unread = (roomState c b room).mainUnread +
      ThreadState.total (·.unread) (roomState c b room).threads := rfl
  have hh : (roomState c b room).highlights = (roomState c b room).mainHighlights +
      ThreadState.total (·.highlights) (roomState c b room).threads := rfl
  have hmain : (roomState c b room).mainHighlights ≤ (roomState c b room).mainUnread :=
    highlights_le_unread c b _
  have hsane : ∀ t ∈ (roomState c b room).threads, t.Sane c room := fun _ ht => sane_of_mem ht
  have hthreads := total_highlights_le hsane
  have hle : ¬ (roomState c b room).unread < (roomState c b room).highlights := by omega
  unfold Check.totalsFault
  simp only [hu, hh, ne_eq, not_true_eq_false, if_false]
  rw [← hu, ← hh, if_neg hle]

end Rooms

section Snapshots

variable {σ : Type} {t : Tracker σ} {rooms : List RoomId}

theorem indexed?_ofMemory {room : RoomId} {root : EventId} {known : Bool}
    (h : Check.indexed? (Snapshot.ofMemory t rooms) room root = some known) :
    known = t.chronicle.rootKnown room root := by
  unfold Check.indexed? at h
  simp only [Option.map_eq_some_iff, Option.bind_eq_some_iff] at h
  obtain ⟨⟨root', known'⟩, ⟨roots, hroots, hfind⟩, rfl⟩ := h
  have hmem := Table.mem_of_get?_ofList hroots
  obtain ⟨room', -, he⟩ := List.mem_map.1 hmem
  cases he
  obtain ⟨root'', -, he⟩ := List.mem_map.1 (List.mem_of_find?_eq_some hfind)
  cases he
  have heq := List.find?_some hfind
  rw [beq_iff_eq] at heq
  rw [← heq]

theorem unknownRootsFault_ofMemory (persisted : Table Slot Nat) (history : Table Scope (List Nat))
    (room : RoomId) :
    Check.unknownRootsFault { Snapshot.ofMemory t rooms with persisted, history }
      (t.roomState room) = none := by
  have hfirst : (t.roomState room).threads.find?
      (fun t => !t.rootKnown && decide (0 < t.unread)) = none := by
    refine List.find?_eq_none.2 fun s hs => ?_
    have hs := sane_of_mem hs
    cases hk : s.rootKnown with
    | true => simp
    | false => simp [hs.unknown hk]
  unfold Check.unknownRootsFault
  rw [hfirst]
  refine Option.map_eq_none_iff.2 (List.find?_eq_none.2 fun s hs => ?_)
  split
  next known hk =>
    have hk : Check.indexed? (Snapshot.ofMemory t rooms) room s.root = some known := hk
    simp [(sane_of_mem hs).rootKnown, indexed?_ofMemory hk]
  next => simp

end Snapshots

/-! ## How far scopes are read -/

section Effective

theorem reaches_raise {t : Table Scope Nat} {scope s : Scope} {sequence q : Nat} :
    (∃ r, (Snapshot.raise t scope sequence).get? s = some r ∧ q ≤ r) ↔
      (∃ r, t.get? s = some r ∧ q ≤ r) ∨ s = scope ∧ q ≤ sequence := by
  classical
  unfold Snapshot.raise
  rw [Table.get?_insert]
  by_cases e : s = scope
  · subst e
    simp only [if_true, Option.some.injEq, exists_eq_left', true_and]
    cases t.get? s with
    | none => simp
    | some r =>
      simp only [Option.some.injEq, exists_eq_left']
      omega
  · simp [e]

theorem reaches_foldl_raise {es : List (Slot × Nat)} {t : Table Scope Nat} {s : Scope} {q : Nat} :
    (∃ r, (es.foldl (fun t p => Snapshot.raise t p.1.scope p.2) t).get? s = some r ∧ q ≤ r) ↔
      (∃ r, t.get? s = some r ∧ q ≤ r) ∨ ∃ p ∈ es, s = p.1.scope ∧ q ≤ p.2 := by
  induction es generalizing t with
  | nil => simp
  | cons p es ih =>
    rw [List.foldl_cons, ih, reaches_raise]
    simp only [List.mem_cons, exists_eq_or_imp]
    rw [or_assoc]

variable {σ : Type}

theorem get?_effective (b : MarkerBook σ) (s : Scope) :
    (Snapshot.effective (b.marks.mapValues fun _ m => m.sequence)).get? s = b.readTo s := by
  refine MarkerBook.eq_of_reaches fun q => ?_
  rw [← MarkerBook.covers_iff_readTo, MarkerBook.covers_iff, Snapshot.effective,
    reaches_foldl_raise]
  constructor
  · rintro (⟨r, hr, -⟩ | ⟨⟨slot, r⟩, hp, rfl, hq⟩)
    · cases hr
    · obtain ⟨m, hm, rfl⟩ := Option.map_eq_some_iff.1
        ((Table.get?_mapValues _ _ _).symm.trans ((Table.get?_eq_some_iff _).2 hp))
      exact ⟨slot.visibility, m, hm, hq⟩
  · rintro ⟨v, m, hm, hq⟩
    refine .inr ⟨(⟨s, v⟩, m.sequence), ?_, rfl, hq⟩
    rw [← Table.get?_eq_some_iff, Table.get?_mapValues, Option.map_eq_some_iff]
    exact ⟨m, hm, rfl⟩

def Chronological (history : Table Scope (List Nat)) (b : MarkerBook σ) : Prop :=
  ∀ s l, history.get? s = some l → l.Pairwise (· ≤ ·) ∧ ∀ q ∈ l, b.covers s q = true

theorem Chronological.mono {τ : Type} {history : Table Scope (List Nat)} {b : MarkerBook σ}
    {b' : MarkerBook τ} (h : Chronological history b)
    (hb : ∀ s q, b.covers s q = true → b'.covers s q = true) : Chronological history b' :=
  fun s l hl => ⟨(h s l hl).1, fun q hq => hb s q ((h s l hl).2 q hq)⟩

theorem get?_foldl_note {es : List (Scope × Nat)}
    (hes : es.Pairwise fun p p' => KeyOrder.before p.1 p'.1) (history : Table Scope (List Nat))
    (s : Scope) :
    (es.foldl (fun h p => h.insert p.1 ((h.get? p.1).getD [] ++ [p.2])) history).get? s =
      match es.find? (fun p => decide (p.1 = s)) with
      | some p => some ((history.get? s).getD [] ++ [p.2])
      | none => history.get? s := by
  induction es generalizing history with
  | nil => rfl
  | cons p es ih =>
    obtain ⟨hp, hes⟩ := List.pairwise_cons.1 hes
    rw [List.foldl_cons, ih hes, List.find?_cons]
    by_cases e : p.1 = s
    · have hn : es.find? (fun p => decide (p.1 = s)) = none := by
        refine List.find?_eq_none.2 fun p' hp' => ?_
        have hne := KeyOrder.ne_of_before (hp p' hp')
        simpa [← e] using hne.symm
      simp only [hn, e, decide_true, Table.get?_insert_self]
    · have hne : s ≠ p.1 := fun h => e h.symm
      simp only [e, decide_false, Table.get?_insert_of_ne _ _ hne]

theorem Chronological.remember {history : Table Scope (List Nat)} {b : MarkerBook σ}
    (h : Chronological history b) : Chronological
      ((Snapshot.effective (b.marks.mapValues fun _ m => m.sequence)).entries.foldl
        (fun h p => h.insert p.1 ((h.get? p.1).getD [] ++ [p.2])) history) b := by
  intro s l hl
  rw [get?_foldl_note (Table.rising _)] at hl
  split at hl
  next p hp =>
    have hs : p.1 = s := by simpa using List.find?_some hp
    have hread : b.readTo s = some p.2 := by
      rw [← get?_effective, ← hs, Table.get?_eq_some_iff]
      exact List.mem_of_find?_eq_some hp
    have hcovers : b.covers s p.2 = true :=
      MarkerBook.covers_iff_readTo.2 ⟨_, hread, Nat.le_refl _⟩
    cases hl
    have hold : ((history.get? s).getD []).Pairwise (· ≤ ·) ∧
        ∀ q ∈ (history.get? s).getD [], b.covers s q = true := by
      cases hg : history.get? s with
      | none => exact ⟨.nil, fun q hq => by cases hq⟩
      | some l => exact h s l hg
    refine ⟨List.pairwise_append.2 ⟨hold.1, List.pairwise_singleton _ _, ?_⟩, ?_⟩
    · intro q hq q' hq'
      obtain ⟨r, hr, hle⟩ := MarkerBook.covers_iff_readTo.1 (hold.2 q hq)
      cases hr.symm.trans hread
      exact List.mem_singleton.1 hq' ▸ hle
    · intro q hq
      rcases List.mem_append.1 hq with hq | hq
      · exact hold.2 q hq
      · exact List.mem_singleton.1 hq ▸ hcovers
  next => exact h s l hl

theorem stepBack_eq_none {l : List Nat} (h : l.Pairwise (· ≤ ·)) : Check.stepBack l = none := by
  induction l with
  | nil => rfl
  | cons a l ih =>
    cases l with
    | nil => rfl
    | cons b l =>
      have hab := (List.pairwise_cons.1 h).1 b List.mem_cons_self
      have hn : ¬ b < a := by omega
      simp only [Check.stepBack, hn, if_false]
      exact ih (List.pairwise_cons.1 h).2

theorem monotoneFault_eq_none {snap : Snapshot} {b : MarkerBook σ}
    (hm : snap.marks = b.marks.mapValues fun _ m => m.sequence)
    (h : Chronological snap.history b) : Check.monotoneFault snap = none := by
  have hback : snap.history.entries.findSome? (fun p => (Check.stepBack p.2).map fun w =>
      "scope " ++ p.1.label ++ ": marker moved back " ++ toString w.1 ++ " -> " ++
        toString w.2) = none := by
    refine List.findSome?_eq_none_iff.2 fun p hp => ?_
    rw [stepBack_eq_none (h p.1 p.2 ((Table.get?_eq_some_iff _).2 hp)).1]
    rfl
  unfold Check.monotoneFault
  rw [hback]
  refine List.findSome?_eq_none_iff.2 fun p hp => ?_
  obtain ⟨-, hcovers⟩ := h p.1 p.2 ((Table.get?_eq_some_iff _).2 hp)
  split
  next last current hlast hcurrent =>
    obtain ⟨r, hr, hle⟩ :=
      MarkerBook.covers_iff_readTo.1 (hcovers last (List.mem_of_getLast? hlast))
    rw [hm, get?_effective, hr] at hcurrent
    cases hcurrent
    exact if_neg (Nat.not_lt.2 hle)
  next => rfl

end Effective

/-! ## Storages that are listed -/

class Backing.Steady (σ : Type) [Backing σ] extends Lawful σ where
  unlimited : capacity = .unlimited
  listed : ∀ {s}, sound s → sound (list s).2 ∧ contents (list s).2 = contents s

instance : Steady Shelf where
  unlimited := rfl
  listed h := ⟨h, rfl⟩

instance {σ : Type} [Backing σ] [Steady σ] : Steady (Faulty σ) where
  unlimited := Steady.unlimited (σ := σ)
  listed {f} h := by
    let P : σ → Prop := fun s => Viewed.sound s ∧ Viewed.contents s = Viewed.contents f.inner
    have hbefore : P f.inner := ⟨h, rfl⟩
    exact (Faulty.passes _ _).keeps hbefore (Steady.listed h)

/-! ## Sessions -/

section Sessions

variable {σ : Type} [Backing σ] [Steady σ]

def MarkerBook.listed (b : MarkerBook σ) : MarkerBook σ :=
  { b with storage := (list b.storage).2 }

theorem MarkerBook.WrittenThrough.listed {b : MarkerBook σ} (h : b.WrittenThrough []) :
    b.listed.WrittenThrough [] := by
  obtain ⟨hs, hc⟩ := Steady.listed h.sound
  exact ⟨hs, h.fits, fun slot m hm => h.behind slot m (hc ▸ hm),
    fun hm hn ho => (congrArg (Table.get? · _) hc).trans (h.flushed hm hn ho), h.waiting⟩

theorem runAll_standard_eq_nil {t : Tracker σ} {rooms : List RoomId}
    {history : Table Scope (List Nat)} {es : List Entry} (hw : t.book.WrittenThrough [])
    (hes : MarkerBook.marksOf es = Viewed.contents t.book.storage)
    (hh : Chronological history t.book) :
    Check.runAll Check.standard { Snapshot.ofMemory t rooms with
      persisted := .ofList (es.map fun e => (e.slot, e.mark.sequence)), history } = [] := by
  have hstate : ∀ r ∈ rooms.map t.roomState, ∃ room, r = t.roomState room := by
    intro r hr
    obtain ⟨room, -, rfl⟩ := List.mem_map.1 hr
    exact ⟨room, rfl⟩
  refine List.filterMap_eq_nil_iff.2 fun c hc => ?_
  rw [Option.map_eq_none_iff]
  simp only [Check.standard, List.mem_cons, List.not_mem_nil, or_false] at hc
  rcases hc with rfl | rfl | rfl | rfl | rfl
  · refine List.findSome?_eq_none_iff.2 fun r hr => ?_
    obtain ⟨room, rfl⟩ := hstate r hr
    exact roomUnreadFault_roomState
  · refine List.findSome?_eq_none_iff.2 fun r hr => ?_
    obtain ⟨room, rfl⟩ := hstate r hr
    exact totalsFault_roomState
  · refine List.findSome?_eq_none_iff.2 fun r hr => ?_
    obtain ⟨room, rfl⟩ := hstate r hr
    exact unknownRootsFault_ofMemory _ _ room
  · exact monotoneFault_eq_none rfl hh
  · have hshows := Snapshot.shows_ofMemory rooms hes history
    exact (Snapshot.faithful_iff_run.1 (hshows.faithful hw.persisted)).1

/-- At the end of a move only the count of moves, the memory of how far scopes are read, and the
storage that was listed are new. -/
theorem Session.observe_eq {s : Session σ} (hc : s.checks = Check.standard)
    (hw : s.tracker.book.WrittenThrough []) (hh : Chronological s.history s.tracker.book)
    (move : String) : ∃ history, Chronological history s.tracker.book ∧
      s.observe move = .ok { s with
        moves := s.moves + 1
        history
        tracker := { s.tracker with book := s.tracker.book.listed } } := by
  refine ⟨_, hh.remember, ?_⟩
  simp only [observe, snapshot, Snapshot.take, remember, joined]
  cases hl : list s.tracker.book.storage with
  | mk answer storage =>
    have hstorage : (list s.tracker.book.storage).2 = storage := by rw [hl]
    cases answer with
    | error why =>
      simp only [Except.map, MarkerBook.listed, hstorage]
    | ok es =>
      have hes := (Viewed.list_ok hw.sound hl).2.2
      simp only [Except.map, MarkerBook.listed, hstorage, hc]
      rw [runAll_standard_eq_nil hw hes hh.remember]

end Sessions

end ReadTracking
