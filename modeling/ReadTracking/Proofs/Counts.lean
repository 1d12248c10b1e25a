import ReadTracking.Proofs.Audits
import ReadTracking.Proofs.Indexing

/-!
# Unread counts are those of the account

A strand lists each message of its scope once, in the order of positions.  So where everything
that happened in a room was delivered, the last message of a scope is its head in the account,
the threads are those that the account has replies in, and the messages after a marker that
count are as many as a plain count over the account finds.
-/

set_option autoImplicit false

namespace ReadTracking

open KeyOrder

namespace Chronicle

variable {c : Chronicle}

/-- Threads whose roots are indexed are listed in the order of their roots. -/
theorem rising_threads {room : RoomId}
    (hknown : ∀ root, c.hasThread room root = true → ∃ p, c.position? root = some p) :
    (c.threads room).Pairwise fun root root' =>
      before (c.position? root, root) (c.position? root', root') := by
  refine (c.rising_standing room).imp_of_mem fun {root root'} hroot hroot' h => ?_
  have hstanding : ∀ r ∈ c.threads room, c.standing room r = c.position? r := by
    intro r hr
    obtain ⟨p, hp⟩ := hknown r (mem_threads.1 hr)
    rw [standing, anchor, hp, Option.orElse_some]
  rw [← hstanding root hroot, ← hstanding root' hroot']
  exact h

namespace Knows

open Reference Reference.World

variable {w : World} {P : Fin roomCount → Happening → Prop} {i : Fin roomCount}
  {thread : Option Nat}

/-- In a room of which everything was delivered, what is indexed for a scope is what happened in
it. -/
theorem get?_scope_iff (hc : c.Knows w P) (hw : w.Orderly)
    (hall : ∀ h ∈ (w.room i).happenings, P i h) (hp : (w.room i).HasPlace thread)
    {id : EventId} : (∃ e, c.get? id = some e ∧ e.scope = w.scope i thread) ↔
      ∃ h ∈ (w.room i).happenings, h.thread = thread ∧ id = h.id := by
  constructor
  · rintro ⟨e, he, hs⟩
    obtain ⟨j, h, hd, hid, -, hs', -⟩ := hc.of_get? he
    have hm := hc.happened hd
    obtain ⟨rfl, ht⟩ := hw.scope_inj (hw.hasPlace hm) hp (hs'.symm.trans hs)
    exact ⟨h, hm, ht, hid⟩
  · rintro ⟨h, hm, rfl, rfl⟩
    obtain ⟨e, he, -, hs, -⟩ := hc.get?_id hw (hall h hm)
    exact ⟨e, he, hs⟩

theorem latest_cases (hc : c.Knows w P) (hw : w.Orderly)
    (hall : ∀ h ∈ (w.room i).happenings, P i h) (hp : (w.room i).HasPlace thread) :
    (∃ h ∈ (w.room i).happenings, h.thread = thread ∧
      (∃ e, c.latest (w.scope i thread) = some e ∧ e.message.id = h.id ∧
        e.position.sequence = h.sequence) ∧
      ∀ h' ∈ (w.room i).happenings, h'.thread = thread → h'.sequence ≤ h.sequence) ∨
    c.latest (w.scope i thread) = none ∧ ∀ h ∈ (w.room i).happenings, h.thread ≠ thread := by
  cases hl : c.latest (w.scope i thread) with
  | some e =>
    obtain ⟨he, hs, hmax⟩ := hc.sound.latest_eq_some hl
    obtain ⟨h, hm, ht, hid⟩ := (hc.get?_scope_iff hw hall hp).1 ⟨e, he, hs⟩
    obtain ⟨e', he', -, -, hq⟩ := hc.get?_id hw (hall h hm)
    rw [← hid, he] at he'
    cases he'
    refine .inl ⟨h, hm, ht, ⟨e, rfl, hid, hq⟩, fun h' hm' ht' => ?_⟩
    obtain ⟨e', he', -, hs', hq'⟩ := hc.get?_id hw (hall h' hm')
    have hnot := hmax he' (hs'.trans (by rw [ht']))
    rw [← Nat.not_lt, ← hq, ← hq']
    exact fun hlt => hnot (.inl hlt)
  | none =>
    refine .inr ⟨rfl, fun h hm ht => ?_⟩
    obtain ⟨e, he, -, hs, -⟩ := hc.get?_id hw (hall h hm)
    exact hc.sound.latest_eq_none hl he (hs.trans (by rw [ht]))

/-- Reading a scope to its end is reading it to its head in the account. -/
theorem horizon_cases (hc : c.Knows w P) (hw : w.Orderly)
    (hall : ∀ h ∈ (w.room i).happenings, P i h) (hp : (w.room i).HasPlace thread) :
    (∃ h ∈ (w.room i).happenings, h.thread = thread ∧
      Turn.horizon c (w.scope i thread) = some ⟨w.scope i thread, h.id, h.sequence⟩ ∧
      ∀ h' ∈ (w.room i).happenings, h'.thread = thread → h'.sequence ≤ h.sequence) ∨
    Turn.horizon c (w.scope i thread) = none ∧
      ∀ h ∈ (w.room i).happenings, h.thread ≠ thread := by
  have hgap : c.lastGap (w.scope i thread) = none := by
    rw [lastGap_eq, Strand.lastGap, hc.gapless]
    rfl
  rcases hc.latest_cases hw hall hp with ⟨h, hm, ht, ⟨e, he, hid, hq⟩, hmax⟩ | ⟨he, hno⟩
  · refine .inl ⟨h, hm, ht, ?_, hmax⟩
    simp only [Turn.horizon, he, hgap, Option.map_some, hid, hq]
  · refine .inr ⟨?_, hno⟩
    rw [Turn.horizon, he, Option.map_none]

theorem root_of_mem_roots (hw : w.Orderly) {place : Nat} (hp : place ∈ (w.room i).roots) :
    ∃ root, (w.room i).happenings[place]? = some root := by
  obtain ⟨h, hm, ht⟩ := Room.mem_roots.1 hp
  obtain ⟨root, hr, -⟩ := hw.rooted hm ht
  exact ⟨root, hr⟩

theorem position?_rootId (hc : c.Knows w P) (hw : w.Orderly)
    (hall : ∀ h ∈ (w.room i).happenings, P i h) {place : Nat} {root : Happening}
    (hr : (w.room i).happenings[place]? = some root) :
    ∃ p, c.position? ((w.room i).rootId place) = some p ∧ p.sequence = root.sequence := by
  obtain ⟨e, he, -, -, hq⟩ := hc.get?_id hw (hall root (List.mem_of_getElem? hr))
  refine ⟨e.position, ?_, hq⟩
  rw [rootId_of_getElem? hr, position?, he, Option.map_some]

theorem mem_threads_iff (hc : c.Knows w P) (hall : ∀ h ∈ (w.room i).happenings, P i h)
    (hw : w.Orderly) {root : EventId} :
    root ∈ c.threads (roomId i) ↔ root ∈ (w.room i).roots.map (w.room i).rootId := by
  rw [mem_threads, hc.sound.hasThread_iff, List.mem_map]
  constructor
  · rintro ⟨id, e, he, hs⟩
    obtain ⟨j, h, hd, -, -, hs', -⟩ := hc.of_get? he
    have heq : w.scope j h.thread = .ofThread (roomId i) root := hs'.symm.trans hs
    obtain rfl : j = i := roomId_injective (congrArg Scope.room heq)
    obtain ⟨place, ht, hplace⟩ := Option.map_eq_some_iff.1 (congrArg Scope.thread heq)
    exact ⟨place, Room.mem_roots.2 ⟨h, hc.happened hd, ht⟩, hplace⟩
  · rintro ⟨place, hplace, rfl⟩
    obtain ⟨h, hm, ht⟩ := Room.mem_roots.1 hplace
    obtain ⟨e, he, -, hs, -⟩ := hc.get?_id hw (hall h hm)
    refine ⟨_, e, he, ?_⟩
    rw [hs, ht]
    rfl

theorem before_rootId (hc : c.Knows w P) (hw : w.Orderly)
    (hall : ∀ h ∈ (w.room i).happenings, P i h) {place place' : Nat}
    (hp : place ∈ (w.room i).roots) (hp' : place' ∈ (w.room i).roots) (hlt : place < place') :
    before (c.position? ((w.room i).rootId place), (w.room i).rootId place)
      (c.position? ((w.room i).rootId place'), (w.room i).rootId place') := by
  obtain ⟨root, hr⟩ := root_of_mem_roots hw hp
  obtain ⟨root', hr'⟩ := root_of_mem_roots hw hp'
  obtain ⟨p, hpos, hq⟩ := hc.position?_rootId hw hall hr
  obtain ⟨p', hpos', hq'⟩ := hc.position?_rootId hw hall hr'
  rw [← hw.place_lt_iff hr hr', ← hq, ← hq'] at hlt
  rw [hpos, hpos']
  exact .inl (.inl hlt)

/-- The threads of a room are those that the account has replies in, in the order of their
roots. -/
theorem threads_eq (hc : c.Knows w P) (hw : w.Orderly)
    (hall : ∀ h ∈ (w.room i).happenings, P i h) :
    c.threads (roomId i) = (w.room i).roots.map (w.room i).rootId := by
  have hroots : (w.room i).roots.Pairwise (· < ·) := by
    unfold Room.roots Table.keys
    rw [List.pairwise_map]
    exact Table.rising _
  have hrising : ((w.room i).roots.map (w.room i).rootId).Pairwise fun root root' =>
      before (c.position? root, root) (c.position? root', root') := by
    rw [List.pairwise_map]
    exact hroots.imp_of_mem fun hp hp' hlt => hc.before_rootId hw hall hp hp' hlt
  have hrising' : (c.threads (roomId i)).Pairwise fun root root' =>
      before (c.position? root, root) (c.position? root', root') := by
    refine rising_threads fun root h => ?_
    obtain ⟨place, hplace, rfl⟩ :=
      List.mem_map.1 ((hc.mem_threads_iff hall hw).1 (mem_threads.2 h))
    obtain ⟨root, hr⟩ := root_of_mem_roots hw hplace
    obtain ⟨p, hp, -⟩ := hc.position?_rootId hw hall hr
    exact ⟨p, hp⟩
  have hnodup : ∀ {l : List EventId}, l.Pairwise (fun root root' =>
      before (c.position? root, root) (c.position? root', root')) → l.Nodup := by
    intro l h
    refine List.Pairwise.imp (fun {root root'} hb => ?_) h
    exact fun he => ne_of_before hb (by rw [he])
  refine List.Perm.eq_of_pairwise (fun _ _ _ _ h h' => absurd h' (KeyOrder.asymm h))
    hrising' hrising ?_
  exact (List.perm_ext_iff_of_nodup (hnodup hrising') (hnodup hrising)).2
    fun root => hc.mem_threads_iff hall hw

/-! ## Unread messages -/

theorem nodup_ids (hw : w.Orderly) (i : Fin roomCount) {p : Happening → Bool} :
    (((w.room i).happenings.filter p).map Happening.id).Nodup := by
  rw [List.Nodup, List.pairwise_map]
  refine ((hw.rising i).sublist List.filter_sublist).imp fun hlt he => ?_
  exact Nat.ne_of_lt hlt (eventNumbered_injective he)

theorem hasGapAfter (hc : c.Knows w P) (s : Scope) (q : Option Nat) :
    c.hasGapAfter s q = false := by
  rw [hasGapAfter_eq]
  cases q <;> simp only [Strand.hasGapAfter, hc.gapless] <;> rfl

theorem highlight_eq_false (hc : c.Knows w P) {s : Scope} {cursor : Option Cursor} {e : Indexed}
    (he : e ∈ c.eventsAfter s cursor) : e.highlight = false := by
  rw [eventsAfter_eq] at he
  obtain ⟨id, -, he⟩ := List.mem_filterMap.1 he
  obtain ⟨i, h, -, ht, -⟩ := hc.told he
  rw [Indexed.highlight, ht.highlight, Bool.and_false]

variable {σ : Type} {b : MarkerBook σ}

theorem unread_countScope (hc : c.Knows w P) (hw : w.Orderly)
    (hall : ∀ h ∈ (w.room i).happenings, P i h) (hp : (w.room i).HasPlace thread)
    (hb : ∀ q, b.covers (w.scope i thread) q = true ↔ (w.room i).Reads thread q) :
    (countScope c b (w.scope i thread)).unread = (w.room i).count thread := by
  have hmark : b.readTo (w.scope i thread) = (w.room i).marks.get? thread :=
    MarkerBook.eq_of_reaches fun q => MarkerBook.covers_iff_readTo.symm.trans (hb q)
  have hcut : ∀ (mark : Option Nat) (e : Indexed) (h : Happening),
      e.position.sequence = h.sequence →
      ((mark.map Cursor.past).all (·.isBefore e.position) = true ↔
        (∀ m, mark = some m → m < h.sequence)) := by
    intro mark e h hq
    cases mark with
    | none => simp
    | some m => simp [Cursor.isBefore, hq]
  simp only [countScope, hc.hasGapAfter, Bool.false_eq_true, if_false, hmark, eventsAfter_eq]
  rw [← List.countP_eq_length_filter, List.countP_filterMap, List.countP_eq_length_filter,
    Room.count, Room.inScope, List.countP_filter, List.countP_eq_length_filter]
  rw [← List.length_map Happening.id]
  refine List.Perm.length_eq ((List.perm_ext_iff_of_nodup
    ((hc.sound.nodup_after _ _).filter _) (nodup_ids hw i)).2 fun id => ?_)
  rw [List.mem_filter, hc.sound.mem_after, List.mem_map]
  constructor
  · rintro ⟨⟨e, he, hs, hcut'⟩, hcount⟩
    obtain ⟨h, hm, ht, rfl⟩ := (hc.get?_scope_iff hw hall hp).1 ⟨e, he, hs⟩
    obtain ⟨e', he', htells, -, hq⟩ := hc.get?_id hw (hall h hm)
    cases he.symm.trans he'
    refine ⟨h, List.mem_filter.2 ⟨hm, ?_⟩, rfl⟩
    have hunread := (hcut _ e h hq).1 hcut'
    simp only [he, Option.map_some, Option.getD_some, hc.countable he htells] at hcount
    cases hmk : (w.room i).marks.get? thread with
    | none => simp [hcount, ht]
    | some m => simp [hcount, ht, hunread m hmk]
  · rintro ⟨h, hm, rfl⟩
    obtain ⟨hm, hcount⟩ := List.mem_filter.1 hm
    simp only [Bool.and_eq_true, beq_iff_eq] at hcount
    obtain ⟨⟨hcountable, hunread⟩, ht⟩ := hcount
    obtain ⟨e, he, htells, hs, hq⟩ := hc.get?_id hw (hall h hm)
    refine ⟨⟨e, he, hs.trans (by rw [ht]), (hcut _ e h hq).2 fun m hmk => ?_⟩, ?_⟩
    · rw [hmk] at hunread
      exact of_decide_eq_true hunread
    · simp only [he, Option.map_some, Option.getD_some, hc.countable he htells, hcountable]

/-- The count of a scope is that of the account.  Nothing addresses the user, and nothing is
missing. -/
theorem countScope_eq (hc : c.Knows w P) (hw : w.Orderly)
    (hall : ∀ h ∈ (w.room i).happenings, P i h) (hp : (w.room i).HasPlace thread)
    (hb : ∀ q, b.covers (w.scope i thread) q = true ↔ (w.room i).Reads thread q) :
    countScope c b (w.scope i thread) = ⟨(w.room i).count thread, 0, false⟩ := by
  have hunread := hc.unread_countScope hw hall hp hb
  have hhighlights : (countScope c b (w.scope i thread)).highlights = 0 := by
    refine List.length_eq_zero_iff.2 (List.filter_eq_nil_iff.2 fun e he => ?_)
    rw [hc.highlight_eq_false (List.mem_of_mem_filter he)]
    exact Bool.false_ne_true
  have hincomplete : (countScope c b (w.scope i thread)).incomplete = false :=
    hc.hasGapAfter _ _
  rw [← hunread, ← hhighlights, ← hincomplete]

theorem threads_roomState (hc : c.Knows w P) (hw : w.Orderly)
    (hall : ∀ h ∈ (w.room i).happenings, P i h) :
    (roomState c b (roomId i)).threads = (w.room i).roots.map fun place =>
      .ofCount ((w.room i).rootId place) true (countScope c b (w.scope i (some place))) := by
  show (c.threads (roomId i)).filterMap (threadState c b (roomId i)) = _
  rw [hc.threads_eq hw hall, List.filterMap_map, ← List.filterMap_eq_map]
  refine List.filterMap_congr fun place hplace => ?_
  obtain ⟨root, hr⟩ := root_of_mem_roots hw hplace
  have hknown : c.rootKnown (roomId i) ((w.room i).rootId place) = true := by
    obtain ⟨e, he, ht, -⟩ := hc.get?_id hw (hall root (List.mem_of_getElem? hr))
    rw [rootId_of_getElem? hr]
    simp only [rootKnown, he, ht.room, beq_self_eq_true]
  show threadState c b (roomId i) ((w.room i).rootId place) = _
  rw [threadState, if_pos hknown]
  rfl

end Knows

end Chronicle

/-! ## What a user sees -/

section Seeing

open Reference Reference.World

def RoomState.seen (r : RoomState) (name : String) (label : EventId → String) : RoomView where
  room := name
  mainUnread := r.mainUnread
  unread := r.unread
  isUnread := r.isUnread
  threads := (r.threads.map fun t => (label t.root, t.unread)).mergeSort
    fun a b => !decide (before b a)

theorem any_eq_pos_foldr {α : Type} {p : α → Bool} (f : α → Nat) {l : List α}
    (h : ∀ a ∈ l, p a = decide (0 < f a)) :
    l.any p = decide (0 < l.foldr (fun a n => f a + n) 0) := by
  induction l with
  | nil => rfl
  | cons a l ih =>
    rw [List.any_cons, ih fun a ha => h a (List.mem_cons_of_mem _ ha), h a List.mem_cons_self,
      List.foldr_cons, ← Bool.decide_or]
    exact decide_eq_decide.2 (by omega)

variable {σ : Type} {b : MarkerBook σ} {c : Chronicle} {w : World}
  {P : Fin roomCount → Happening → Prop} {i : Fin roomCount}

/-- Where everything was delivered and the markers are those of the account, the user sees what
the account says. -/
theorem Chronicle.Knows.seen_roomState (hc : c.Knows w P) (hw : w.Orderly)
    (hall : ∀ h ∈ (w.room i).happenings, P i h)
    (hb : ∀ {thread q}, (w.room i).HasPlace thread →
      (b.covers (w.scope i thread) q = true ↔ (w.room i).Reads thread q))
    {label : EventId → String}
    (hlabel : ∀ place ∈ (w.room i).roots,
      label ((w.room i).rootId place) = (w.room i).labelAt place) (name : String) :
    (roomState c b (roomId i)).seen name label = (w.room i).view name := by
  have hmain : (roomState c b (roomId i)).mainUnread = (w.room i).count none :=
    hc.unread_countScope hw hall (HasPlace.none _) fun q => hb (HasPlace.none _)
  have hcount : ∀ place ∈ (w.room i).roots,
      (countScope c b (w.scope i (some place))).unread = (w.room i).count (some place) := by
    intro place hplace
    obtain ⟨root, hr⟩ := Chronicle.Knows.root_of_mem_roots hw hplace
    have hp := hasPlace_of_getElem? hr
    exact hc.unread_countScope hw hall hp fun q => hb hp
  have hthreads : (roomState c b (roomId i)).threads.map (fun t => (label t.root, t.unread)) =
      (w.room i).roots.map fun place =>
        ((w.room i).labelAt place, (w.room i).count (some place)) := by
    rw [hc.threads_roomState hw hall, List.map_map]
    refine List.map_congr_left fun place hplace => ?_
    exact Prod.ext (hlabel place hplace) (hcount place hplace)
  have hsum : ThreadState.total (·.unread) (roomState c b (roomId i)).threads =
      (w.room i).threadCounts.foldr (fun t n => t.2 + n) 0 := by
    have hperm : (w.room i).threadCounts.Perm ((w.room i).roots.map fun place =>
        ((w.room i).labelAt place, (w.room i).count (some place))) := List.mergeSort_perm _ _
    have hfold := hperm.foldr_eq' (f := fun t n => t.2 + n)
      (fun x _ y _ n => Nat.add_left_comm y.2 x.2 n) 0
    rw [hfold, ← hthreads, List.foldr_map]
    rfl
  have hany : (roomState c b (roomId i)).threads.any (·.hasUnread) =
      decide (0 < (w.room i).threadCounts.foldr (fun t n => t.2 + n) 0) := by
    rw [← hsum]
    exact any_eq_pos_foldr (·.unread) fun t ht => (sane_of_mem ht).hasUnread
  have hunread : (roomState c b (roomId i)).unread = (w.room i).count none +
      (w.room i).threadCounts.foldr (fun t n => t.2 + n) 0 := by
    rw [← hsum, ← hmain]
    rfl
  have hflag : (roomState c b (roomId i)).isUnread = (decide (0 < (w.room i).count none) ||
      decide (0 < (w.room i).threadCounts.foldr (fun t n => t.2 + n) 0)) := by
    rw [← hany, ← hmain]
    rfl
  simp only [RoomState.seen, Room.view, hmain, hunread, hflag, hthreads]
  rfl

end Seeing

end ReadTracking
