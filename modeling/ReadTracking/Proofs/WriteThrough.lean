import ReadTracking.Proofs.StorageLaws

/-!
# Markers are written through

However the calls of a lawful storage fail, the storage is never ahead of the book, and what the
book does not remember as unflushed is stored as the book has it.  A write that fails is
remembered, and a batch that fails in the middle is remembered as a whole.
-/

set_option autoImplicit false

namespace ReadTracking.MarkerBook

open Backing

variable {σ : Type}

def Behind (t marks : Table Slot Mark) : Prop :=
  ∀ slot m, t.get? slot = some m →
    ∃ m', marks.get? slot = some m' ∧ m.sequence ≤ m'.sequence

/-- Everything but what is unflushed is stored as the book has it; a list of slots may still be
owed. -/
structure WrittenThrough [Backing σ] [Lawful σ] (b : MarkerBook σ) (owed : List Slot) : Prop where
  sound : Viewed.sound b.storage
  fits : ∀ {slot m}, b.marks.get? slot = some m → (Viewed.capacity σ).entry ⟨slot, m⟩
  behind : Behind (Viewed.contents b.storage) b.marks
  flushed : ∀ {slot m}, b.marks.get? slot = some m → b.unflushed.get? slot = none →
    slot ∉ owed → (Viewed.contents b.storage).get? slot = some m
  waiting : ∀ {slot}, b.unflushed.contains slot = true → b.marks.contains slot = true

/-! ## Updates in memory -/

theorem lt_of_not_isStale {b : MarkerBook σ} {v : Visibility} {u : Update}
    (h : b.isStale v u = false) {m : Mark} (hm : b.marks.get? ⟨u.scope, v⟩ = some m) :
    m.sequence < u.sequence := by
  rw [← Nat.not_le]
  intro hle
  have := isStale_iff.2 ⟨m, hm, hle⟩
  simp [h] at this

/-- An update that moves a marker is behind in no table that the markers are ahead of. -/
theorem Behind.noneBehind {b : MarkerBook σ} {t : Table Slot Mark} (h : Behind t b.marks)
    {v : Visibility} {u : Update} (hu : b.isStale v u = false) (now : Nat) :
    ∀ m, t.get? (entryOf v now u).slot = some m → m.sequence ≤ (entryOf v now u).mark.sequence := by
  intro m hm
  obtain ⟨m', hm', hle⟩ := h _ _ hm
  exact Nat.le_of_lt (Nat.lt_of_le_of_lt hle (lt_of_not_isStale hu hm'))

theorem Behind.setMark {b : MarkerBook σ} {t : Table Slot Mark} (h : Behind t b.marks)
    {v : Visibility} {u : Update} (hu : b.isStale v u = false) (now : Nat) :
    Behind t (b.setMark v now u).marks := by
  intro slot m hm
  obtain ⟨m', hm', hle⟩ := h _ _ hm
  by_cases e : slot = ⟨u.scope, v⟩
  · subst e
    refine ⟨_, Table.get?_insert_self _ _ _, ?_⟩
    exact Nat.le_of_lt (Nat.lt_of_le_of_lt hle (lt_of_not_isStale hu hm'))
  · exact ⟨m', (Table.get?_insert_of_ne _ _ e).trans hm', hle⟩

theorem Behind.insert {b : MarkerBook σ} {t : Table Slot Mark} (h : Behind t b.marks)
    {v : Visibility} {u : Update} (hu : b.isStale v u = false) (now : Nat) :
    Behind (t.insert ⟨u.scope, v⟩ ⟨u.event, u.sequence, now⟩) (b.setMark v now u).marks := by
  intro slot m hm
  by_cases e : slot = ⟨u.scope, v⟩
  · subst e
    have := Option.some.inj ((Table.get?_insert_self _ _ _).symm.trans hm)
    subst this
    exact ⟨_, Table.get?_insert_self _ _ _, Nat.le_refl _⟩
  · exact h.setMark hu now _ _ ((Table.get?_insert_of_ne _ _ e).symm.trans hm)

theorem marks_setAll (v : Visibility) (now : Nat) (us : List Update) (b : MarkerBook σ) :
    (b.setAll v now us).1.marks =
      b.marks.insertAll (((b.setAll v now us).2.map (entryOf v now)).map Entry.pair) := by
  induction us generalizing b with
  | nil => rfl
  | cons u us ih =>
    simp only [setAll]
    split
    · exact ih b
    · exact ih _

/-- Several updates in order move no marker of a table back that the markers are ahead of, and
they stay ahead of it when any number of the updates has been put in. -/
theorem Behind.setAll {b : MarkerBook σ} {t : Table Slot Mark} (h : Behind t b.marks)
    (v : Visibility) (now : Nat) (us : List Update) :
    NoneBehind t ((b.setAll v now us).2.map (entryOf v now)) ∧
      ∀ n, Behind
        (t.insertAll ((((b.setAll v now us).2.map (entryOf v now)).take n).map Entry.pair))
        (b.setAll v now us).1.marks := by
  induction us generalizing b t with
  | nil => exact ⟨trivial, fun n => by simpa [MarkerBook.setAll, Table.insertAll] using h⟩
  | cons u us ih =>
    simp only [MarkerBook.setAll]
    cases hu : b.isStale v u with
    | true =>
      simp only [if_true]
      exact ih h
    | false =>
      simp only [Bool.false_eq_true, if_false, List.map_cons]
      refine ⟨⟨h.noneBehind hu now, (ih (h.insert hu now)).1⟩, fun n => ?_⟩
      cases n with
      | zero => exact (ih (h.setMark hu now)).2 0
      | succ n => exact (ih (h.insert hu now)).2 n

/-! ## The operations of a book keep what is written through -/

section

variable {b : MarkerBook σ}

theorem entry_entryOf {K : Capacity} {u : Update} {now : Nat} (hu : K.update u)
    (hnow : K.number now) (v : Visibility) : K.entry (entryOf v now u) :=
  ⟨hu.1, hu.2.1, hu.2.2, hnow⟩

theorem setAll_singleton {v : Visibility} {u : Update} (hu : b.isStale v u = false) (now : Nat) :
    b.setAll v now [u] = (b.setMark v now u, [u]) := by
  simp [setAll, hu]

section

variable {us : List Update} {v : Visibility} {now : Nat}

theorem get?_marks_setAll (t : Table Slot Mark) {slot : Slot}
    (h : ∃ u ∈ (b.setAll v now us).2, (⟨u.scope, v⟩ : Slot) = slot) :
    (t.insertAll (((b.setAll v now us).2.map (entryOf v now)).map Entry.pair)).get? slot =
      (b.setAll v now us).1.marks.get? slot := by
  rw [marks_setAll]
  obtain ⟨u, hu, he⟩ := h
  exact Table.get?_insertAll_congr _ _ (.inl ⟨(⟨u.scope, v⟩, ⟨u.event, u.sequence, now⟩),
    List.mem_map.2 ⟨entryOf v now u, List.mem_map_of_mem hu, rfl⟩, he⟩)

theorem get?_insertAll_take (t : Table Slot Mark) (n : Nat) {slot : Slot}
    (h : ¬ ∃ u ∈ (b.setAll v now us).2, (⟨u.scope, v⟩ : Slot) = slot) :
    (t.insertAll ((((b.setAll v now us).2.map (entryOf v now)).take n).map Entry.pair)).get? slot =
      t.get? slot := by
  refine Table.get?_insertAll_of_not_mem _ fun p hp e => h ?_
  obtain ⟨entry, he, rfl⟩ := List.mem_map.1 hp
  obtain ⟨u, hu, rfl⟩ := List.mem_map.1 (List.mem_of_mem_take he)
  exact ⟨u, hu, e⟩

theorem get?_marks_setAll_of_moved {slot : Slot}
    (h : ∃ u ∈ (b.setAll v now us).2, (⟨u.scope, v⟩ : Slot) = slot) :
    ∃ u ∈ (b.setAll v now us).2, (⟨u.scope, v⟩ : Slot) = slot ∧
      (b.setAll v now us).1.marks.get? slot = some ⟨u.event, u.sequence, now⟩ := by
  obtain ⟨u, hu, he⟩ := h
  have hkey : ∃ p ∈ ((b.setAll v now us).2.map (entryOf v now)).map Entry.pair, p.1 = slot :=
    ⟨_, List.mem_map_of_mem (List.mem_map_of_mem hu), he⟩
  obtain ⟨m, hm, hin⟩ := b.marks.get?_insertAll_of_mem hkey
  obtain ⟨entry, hentry, hpair⟩ := List.mem_map.1 hin
  obtain ⟨u', hu', rfl⟩ := List.mem_map.1 hentry
  cases hpair
  refine ⟨u', hu', rfl, ?_⟩
  rw [marks_setAll]
  exact hm

theorem get?_marks_setAll_of_not_moved {slot : Slot}
    (h : ¬ ∃ u ∈ (b.setAll v now us).2, (⟨u.scope, v⟩ : Slot) = slot) :
    (b.setAll v now us).1.marks.get? slot = b.marks.get? slot := by
  have := get?_insertAll_take b.marks ((b.setAll v now us).2.map (entryOf v now)).length h
  rw [List.take_length] at this
  rw [marks_setAll, this]

variable [Backing σ] [Lawful σ]

theorem WrittenThrough.fits_setAll (h : b.WrittenThrough [])
    (hus : ∀ u ∈ us, (Viewed.capacity σ).update u) (hnow : now < Sum64.bound) {slot : Slot}
    {m : Mark} (hm : (b.setAll v now us).1.marks.get? slot = some m) :
    (Viewed.capacity σ).entry ⟨slot, m⟩ := by
  by_cases hmoved : ∃ u ∈ (b.setAll v now us).2, (⟨u.scope, v⟩ : Slot) = slot
  · obtain ⟨u, hu, rfl, hm'⟩ := get?_marks_setAll_of_moved hmoved
    cases hm.symm.trans hm'
    have hmem := (sublist_setAll v now us b).subset hu
    exact entry_entryOf (hus u hmem) (Viewed.clock hnow) v
  · rw [get?_marks_setAll_of_not_moved hmoved] at hm
    exact h.fits hm

theorem WrittenThrough.contains_setAll (h : b.WrittenThrough []) {slot : Slot}
    (hw : (∃ u ∈ (b.setAll v now us).2, (⟨u.scope, v⟩ : Slot) = slot) ∨
      b.unflushed.contains slot = true) :
    (b.setAll v now us).1.marks.contains slot = true := by
  by_cases hmoved : ∃ u ∈ (b.setAll v now us).2, (⟨u.scope, v⟩ : Slot) = slot
  · obtain ⟨u, -, -, hm⟩ := get?_marks_setAll_of_moved hmoved
    exact Table.contains_iff.2 ⟨_, hm⟩
  · rw [Table.contains, get?_marks_setAll_of_not_moved hmoved]
    exact h.waiting (hw.resolve_left hmoved)

/-- Some of the moves were stored.  Either all of them wait for a write, or all were stored. -/
theorem WrittenThrough.moved (h : b.WrittenThrough [])
    {f : MarkerBook σ → Slot → MarkerBook σ} {waits : Option Unit} (hf : SetsWaiting f waits)
    (hus : ∀ u ∈ us, (Viewed.capacity σ).update u) (hnow : now < Sum64.bound) {s : σ} {n : Nat}
    (hs : Viewed.sound s) (hc : Viewed.contents s = (Viewed.contents b.storage).insertAll
      ((((b.setAll v now us).2.map (entryOf v now)).take n).map Entry.pair))
    (hall : waits = none →
      Viewed.contents s = (Viewed.contents b.storage).insertAll
        (((b.setAll v now us).2.map (entryOf v now)).map Entry.pair)) :
    ((b.setAll v now us).2.foldl (fun (b : MarkerBook σ) u => f b ⟨u.scope, v⟩)
      { (b.setAll v now us).1 with storage := s }).WrittenThrough [] := by
  refine ⟨?_, ?_, ?_, ?_, ?_⟩
  · rw [hf.storage_foldl]
    exact hs
  · intro slot m hm
    rw [hf.marks_foldl] at hm
    exact h.fits_setAll hus hnow hm
  · rw [hf.storage_foldl, hf.marks_foldl]
    show Behind (Viewed.contents s) _
    rw [hc]
    exact (h.behind.setAll v now us).2 n
  · intro slot m hm hn _
    rw [hf.marks_foldl] at hm
    rw [hf.get?_foldl] at hn
    rw [hf.storage_foldl]
    show (Viewed.contents s).get? slot = some m
    by_cases hmoved : ∃ u ∈ (b.setAll v now us).2, (⟨u.scope, v⟩ : Slot) = slot
    · rw [if_pos hmoved] at hn
      rw [hall hn, get?_marks_setAll _ hmoved]
      exact hm
    · rw [if_neg hmoved] at hn
      rw [hc, get?_insertAll_take _ n hmoved]
      refine h.flushed ?_ (unflushed_setAll v now us b ▸ hn) List.not_mem_nil
      exact (get?_marks_setAll_of_not_moved hmoved).symm.trans hm
  · intro slot hw
    rw [hf.marks_foldl]
    refine h.contains_setAll ?_
    obtain ⟨x, hx⟩ := Table.contains_iff.1 hw
    rw [hf.get?_foldl] at hx
    split at hx
    next hmoved => exact .inl hmoved
    next =>
      right
      rw [← unflushed_setAll v now us b]
      exact Table.contains_iff.2 ⟨x, hx⟩

theorem WrittenThrough.settled (h : b.WrittenThrough [])
    (hus : ∀ u ∈ us, (Viewed.capacity σ).update u) (hnow : now < Sum64.bound) {s : σ}
    (hs : Viewed.sound s) (hc : Viewed.contents s = (Viewed.contents b.storage).insertAll
      (((b.setAll v now us).2.map (entryOf v now)).map Entry.pair)) :
    ((b.setAll v now us).2.foldl (fun (b : MarkerBook σ) u => b.settle ⟨u.scope, v⟩)
      { (b.setAll v now us).1 with storage := s }).WrittenThrough [] := by
  have htake : Viewed.contents s = (Viewed.contents b.storage).insertAll
      ((((b.setAll v now us).2.map (entryOf v now)).take
        ((b.setAll v now us).2.map (entryOf v now)).length).map Entry.pair) := by
    rw [List.take_length]
    exact hc
  exact h.moved setsWaiting_settle hus hnow hs htake fun _ => hc

theorem WrittenThrough.deferred (h : b.WrittenThrough [])
    (hus : ∀ u ∈ us, (Viewed.capacity σ).update u) (hnow : now < Sum64.bound) {s : σ} {n : Nat}
    (hs : Viewed.sound s) (hc : Viewed.contents s = (Viewed.contents b.storage).insertAll
      ((((b.setAll v now us).2.map (entryOf v now)).take n).map Entry.pair)) :
    ((b.setAll v now us).2.foldl (fun (b : MarkerBook σ) u => b.defer ⟨u.scope, v⟩)
      { (b.setAll v now us).1 with storage := s }).WrittenThrough [] :=
  h.moved setsWaiting_defer hus hnow hs hc nofun

end

variable [Backing σ] [Lawful σ]

theorem WrittenThrough.advance (h : b.WrittenThrough []) {u : Update} {now : Nat}
    (hu : (Viewed.capacity σ).update u) (hnow : now < Sum64.bound) (v : Visibility) :
    (b.advance u v now).1.WrittenThrough [] := by
  have hentry := entry_entryOf hu (Viewed.clock hnow) v
  have hus : ∀ u' ∈ [u], (Viewed.capacity σ).update u' := by
    intro u' hu'
    rw [List.mem_singleton.1 hu']
    exact hu
  cases hs : b.isStale v u with
  | true =>
    rw [advance_of_isStale b hs]
    exact h
  | false =>
    have hone := setAll_singleton hs now
    have hnone : NoneBehind (Viewed.contents b.storage) [entryOf v now u] :=
      ⟨h.behind.noneBehind hs now, trivial⟩
    simp only [MarkerBook.advance, hs, Bool.false_eq_true, if_false]
    split
    next s hw =>
      obtain ⟨hsound, hc⟩ := Lawful.store.ok h.sound hentry hnone hw
      have := h.settled (v := v) hus hnow hsound (by rw [hone]; exact hc)
      rw [hone] at this
      exact this
    next why s hw =>
      obtain ⟨hsound, hc, -⟩ := Lawful.store.error h.sound hentry hnone hw
      have := h.deferred (v := v) (n := 0) hus hnow hsound hc
      rw [hone] at this
      exact this

theorem WrittenThrough.advanceAll (h : b.WrittenThrough []) {us : List Update} {now : Nat}
    (hus : ∀ u ∈ us, (Viewed.capacity σ).update u) (hnow : now < Sum64.bound) (v : Visibility) :
    (b.advanceAll us v now).1.WrittenThrough [] := by
  have hentries : ∀ e ∈ (b.setAll v now us).2.map (entryOf v now),
      (Viewed.capacity σ).entry e := by
    intro e he
    obtain ⟨u, hu, rfl⟩ := List.mem_map.1 he
    exact entry_entryOf (hus u ((sublist_setAll v now us b).subset hu)) (Viewed.clock hnow) v
  have hnone := (h.behind.setAll v now us).1
  simp only [MarkerBook.advanceAll]
  split
  next hempty =>
    -- Nothing moved, so the book is what it was.
    have hnil : (b.setAll v now us).2 = [] := List.isEmpty_iff.1 hempty
    have := h.settled (v := v) hus hnow h.sound (by rw [hnil]; rfl)
    rw [hnil] at this
    have hsame : (b.setAll v now us).1.storage = b.storage := storage_setAll v now us b
    rw [← hsame] at this
    exact this
  next =>
    split
    next s hw =>
      rw [storage_setAll] at hw
      obtain ⟨hsound, hc⟩ := Lawful.storeAll_ok h.sound hentries hnone hw
      exact h.settled hus hnow hsound hc
    next why s hw =>
      rw [storage_setAll] at hw
      obtain ⟨hsound, -, n, hc⟩ := Lawful.storeAll_error h.sound hentries hnone hw
      exact h.deferred hus hnow hsound hc

/-! ## Writing again, forgetting and opening -/

theorem WrittenThrough.paid {slot : Slot} {slots : List Slot} (h : b.WrittenThrough (slot :: slots))
    (hp : ∀ m, b.marks.get? slot = some m →
      (Viewed.contents b.storage).get? slot = some m) : b.WrittenThrough slots where
  sound := h.sound
  fits := h.fits
  behind := h.behind
  flushed {slot' m} hm hn ho := by
    by_cases e : slot' = slot
    · exact e ▸ hp m (e ▸ hm)
    · exact h.flushed hm hn (List.not_mem_cons_of_ne_of_not_mem e ho)
  waiting := h.waiting

theorem WrittenThrough.stored {slot : Slot} {slots : List Slot} {m : Mark} {s : σ}
    (h : b.WrittenThrough (slot :: slots)) (hm : b.marks.get? slot = some m)
    (hs : Viewed.sound s)
    (hc : Viewed.contents s = (Viewed.contents b.storage).insert slot m) :
    ({ b with storage := s } : MarkerBook σ).WrittenThrough slots := by
  have hself : (Viewed.contents s).get? slot = some m := by
    rw [hc]
    exact Table.get?_insert_self _ _ _
  have hother : ∀ {slot'}, slot' ≠ slot →
      (Viewed.contents s).get? slot' = (Viewed.contents b.storage).get? slot' := by
    intro slot' e
    rw [hc]
    exact Table.get?_insert_of_ne _ _ e
  refine ⟨hs, h.fits, fun slot' m' hm' => ?_, fun {slot' m'} hm' hn ho => ?_, h.waiting⟩
  · by_cases e : slot' = slot
    · subst e
      cases hself.symm.trans hm'
      exact ⟨m, hm, Nat.le_refl _⟩
    · exact h.behind _ _ ((hother e).symm.trans hm')
  · by_cases e : slot' = slot
    · subst e
      exact hself.trans (hm.symm.trans hm')
    · exact (hother e).trans (h.flushed hm' hn (List.not_mem_cons_of_ne_of_not_mem e ho))

theorem WrittenThrough.postponed {slot : Slot} {slots : List Slot} {m : Mark} {s : σ}
    (h : b.WrittenThrough (slot :: slots)) (hm : b.marks.get? slot = some m)
    (hs : Viewed.sound s) (hc : Viewed.contents s = Viewed.contents b.storage) :
    (({ b with storage := s } : MarkerBook σ).defer slot).WrittenThrough slots := by
  refine ⟨hs, h.fits, ?_, fun {slot' m'} hm' hn ho => ?_, fun {slot'} hw => ?_⟩
  · show Behind (Viewed.contents s) _
    rw [hc]
    exact h.behind
  · show (Viewed.contents s).get? slot' = some m'
    rw [hc]
    by_cases e : slot' = slot
    · subst e
      cases (Table.get?_insert_self _ _ _).symm.trans hn
    · exact h.flushed hm' ((Table.get?_insert_of_ne _ _ e).symm.trans hn)
        (List.not_mem_cons_of_ne_of_not_mem e ho)
  · by_cases e : slot' = slot
    · subst e
      exact Table.contains_iff.2 ⟨m, hm⟩
    · obtain ⟨x, hx⟩ := Table.contains_iff.1 hw
      exact h.waiting (Table.contains_iff.2 ⟨x, (Table.get?_insert_of_ne _ _ e).symm.trans hx⟩)

theorem WrittenThrough.flushSlots {slots : List Slot} (h : b.WrittenThrough slots) :
    (flushSlots slots b).1.WrittenThrough [] := by
  induction slots generalizing b with
  | nil => exact h
  | cons slot slots ih =>
    simp only [MarkerBook.flushSlots]
    split
    next hm => exact ih (h.paid fun m hm' => by rw [hm] at hm'; cases hm')
    next m hm =>
      have hnone : NoneBehind (Viewed.contents b.storage) [⟨slot, m⟩] := by
        refine ⟨fun m₀ hm₀ => ?_, trivial⟩
        obtain ⟨m', hm', hle⟩ := h.behind _ _ hm₀
        cases hm.symm.trans hm'
        exact hle
      split
      next s hw =>
        obtain ⟨hsound, hc⟩ := Lawful.store.ok h.sound (h.fits hm) hnone hw
        exact ih (h.stored hm hsound hc)
      next why s hw =>
        obtain ⟨hsound, hc, hwhy⟩ := Lawful.store.error h.sound (h.fits hm) hnone hw
        simp only [hwhy, Bool.false_eq_true, if_false]
        exact ih (h.postponed hm hsound hc)

theorem WrittenThrough.flush (h : b.WrittenThrough []) : b.flush.1.WrittenThrough [] := by
  have h₁ : ({ b with unflushed := .empty } : MarkerBook σ).WrittenThrough b.unflushed.keys := by
    refine ⟨h.sound, h.fits, h.behind, fun {slot m} hm _ ho => ?_, fun {slot} hw => ?_⟩
    · refine h.flushed hm ?_ List.not_mem_nil
      cases hu : b.unflushed.get? slot with
      | none => rfl
      | some x => exact absurd (Table.mem_keys.2 ⟨x, hu⟩) ho
    · obtain ⟨x, hx⟩ := Table.contains_iff.1 hw
      cases hx
  rw [flush_fst]
  exact h₁.flushSlots

theorem WrittenThrough.retried (h : b.WrittenThrough []) : b.retried.WrittenThrough [] := by
  unfold MarkerBook.retried
  split
  · exact h
  · exact h.flush

theorem WrittenThrough.forget (h : b.WrittenThrough []) {room : RoomId}
    (hroom : (Viewed.capacity σ).room room) {n : Nat} (hf : (b.forget room).2 = .ok n) :
    (b.forget room).1.WrittenThrough [] := by
  have hcall : Backing.forget room b.storage = (.ok n, (b.forget room).1.storage) :=
    Prod.ext hf rfl
  obtain ⟨hsound, hc⟩ := Viewed.forget_ok h.sound hroom hcall
  have hkeep : ∀ {β : Type} {t : Table Slot β} {slot : Slot} {x : β},
      (t.filter fun slot _ => slot.scope.room != room).get? slot = some x ↔
        t.get? slot = some x ∧ (slot.scope.room != room) = true := by
    intro β t slot x
    rw [Table.get?_filter, Option.filter_eq_some_iff]
  refine ⟨hsound, fun {slot m} hm => ?_, fun slot m hm => ?_, fun {slot m} hm hn _ => ?_,
    fun {slot} hw => ?_⟩
  · exact h.fits (hkeep.1 hm).1
  · rw [hc, MarkMap.without, hkeep] at hm
    obtain ⟨m', hm', hle⟩ := h.behind _ _ hm.1
    exact ⟨m', hkeep.2 ⟨hm', hm.2⟩, hle⟩
  · have hm := hkeep.1 hm
    rw [hc, MarkMap.without, hkeep]
    refine ⟨h.flushed hm.1 ?_ List.not_mem_nil, hm.2⟩
    cases hu : b.unflushed.get? slot with
    | none => rfl
    | some x =>
      have := hkeep.2 ⟨hu, hm.2⟩
      cases hn.symm.trans this
  · obtain ⟨x, hx⟩ := Table.contains_iff.1 hw
    obtain ⟨hx, hr⟩ := hkeep.1 hx
    obtain ⟨m, hm⟩ := Table.contains_iff.1 (h.waiting (Table.contains_iff.2 ⟨x, hx⟩))
    exact Table.contains_iff.2 ⟨m, hkeep.2 ⟨hm, hr⟩⟩

theorem writtenThrough_of_openOver {s : σ} (hs : Viewed.sound s)
    (h : (openOver s).1 = .ok b) : b.WrittenThrough [] := by
  unfold openOver at h
  split at h
  next es s' hl =>
    cases h
    obtain ⟨hsound, hc, hm⟩ := Viewed.list_ok hs hl
    have hm' : marksOf es = Viewed.contents s' := hm.trans hc.symm
    refine ⟨hsound, fun {slot m} hm => ?_, fun slot m hm => ?_, fun {slot m} hm _ _ => ?_,
      fun {slot} hw => ?_⟩
    · exact Viewed.fits hsound (hm' ▸ hm)
    · exact ⟨m, (congrArg (Table.get? · slot) hm').trans hm, Nat.le_refl _⟩
    · exact (congrArg (Table.get? · slot) hm').symm.trans hm
    · cases hw
  next => cases h

end

end ReadTracking.MarkerBook
