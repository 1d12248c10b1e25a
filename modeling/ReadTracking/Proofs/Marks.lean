import ReadTracking.MarkerBook

/-!
# How far a marker book reads

A scope is covered up to a sequence when one of its two markers lies there or further.  Coverage
says all that the counts need of a book: two books that cover alike read alike.  An advance
covers what was covered before, and its own scope up to its own sequence.  What an advance does
to the markers is the same whatever the storage answers.
-/

set_option autoImplicit false

namespace ReadTracking.MarkerBook

variable {σ τ : Type}

/-! ## Coverage -/

theorem covers_iff {b : MarkerBook σ} {s : Scope} {q : Nat} :
    b.covers s q = true ↔ ∃ v m, b.mark? s v = some m ∧ q ≤ m.sequence := by
  have cases : ∀ o : Visibility → Option Mark,
      (∃ v m, o v = some m ∧ q ≤ m.sequence) ↔
        (∃ m, o .shared = some m ∧ q ≤ m.sequence) ∨
          ∃ m, o .personal = some m ∧ q ≤ m.sequence := by
    intro o
    constructor
    · rintro ⟨v, m, h⟩
      cases v with
      | shared => exact .inl ⟨m, h⟩
      | personal => exact .inr ⟨m, h⟩
    · rintro (⟨m, h⟩ | ⟨m, h⟩)
      · exact ⟨_, m, h⟩
      · exact ⟨_, m, h⟩
  rw [cases fun v => b.mark? s v]
  unfold covers readTo effectiveSlot
  cases hs : b.mark? s .shared with
  | none => cases hp : b.mark? s .personal <;> simp
  | some shared =>
    cases hp : b.mark? s .personal with
    | none => simp
    | some personal =>
      by_cases h : shared.sequence < personal.sequence
      · simp [h]
        omega
      · simp [h]
        omega

theorem covers_iff_readTo {b : MarkerBook σ} {s : Scope} {q : Nat} :
    b.covers s q = true ↔ ∃ r, b.readTo s = some r ∧ q ≤ r := by
  unfold covers
  cases b.readTo s <;> simp

/-- A number that may be missing is decided by the numbers that it reaches. -/
theorem eq_of_reaches {o o' : Option Nat}
    (h : ∀ q, (∃ r, o = some r ∧ q ≤ r) ↔ ∃ r, o' = some r ∧ q ≤ r) : o = o' := by
  cases o with
  | none =>
    cases o' with
    | none => rfl
    | some r =>
      obtain ⟨_, hn, -⟩ := (h r).2 ⟨r, rfl, Nat.le_refl r⟩
      cases hn
  | some r =>
    obtain ⟨r', hr', hle⟩ := (h r).1 ⟨r, rfl, Nat.le_refl r⟩
    obtain ⟨r'', hr'', hle'⟩ := (h r').2 ⟨r', hr', Nat.le_refl r'⟩
    cases hr''
    rw [hr', Nat.le_antisymm hle hle']

theorem readTo_eq_of_covers {b : MarkerBook σ} {b' : MarkerBook τ} {s : Scope}
    (h : ∀ q, b.covers s q = true ↔ b'.covers s q = true) : b.readTo s = b'.readTo s :=
  eq_of_reaches fun q => covers_iff_readTo.symm.trans ((h q).trans covers_iff_readTo)

theorem covers_of_le {b : MarkerBook σ} {s : Scope} {q q' : Nat} (h : q' ≤ q)
    (hc : b.covers s q = true) : b.covers s q' = true := by
  obtain ⟨v, m, hm, hq⟩ := covers_iff.1 hc
  exact covers_iff.2 ⟨v, m, hm, Nat.le_trans h hq⟩

theorem isStale_iff {b : MarkerBook σ} {v : Visibility} {u : Update} :
    b.isStale v u = true ↔ ∃ m, b.mark? u.scope v = some m ∧ u.sequence ≤ m.sequence := by
  unfold isStale
  cases b.mark? u.scope v <;> simp

theorem isStale_eq_false_of_not_covers {b : MarkerBook σ} {u : Update} (v : Visibility)
    (h : ¬ b.covers u.scope u.sequence = true) : b.isStale v u = false := by
  rw [← Bool.not_eq_true]
  intro hs
  obtain ⟨m, hm, hq⟩ := isStale_iff.1 hs
  exact h (covers_iff.2 ⟨v, m, hm, hq⟩)

/-! ## Markers alone decide -/

theorem mark?_congr {b : MarkerBook σ} {b' : MarkerBook τ} (h : b'.marks = b.marks) (s : Scope)
    (v : Visibility) : b'.mark? s v = b.mark? s v := by
  simp [mark?, h]

theorem readTo_congr_mark {b : MarkerBook σ} {b' : MarkerBook τ} {s : Scope}
    (h : ∀ v, b'.mark? s v = b.mark? s v) : b'.readTo s = b.readTo s := by
  simp only [readTo, effectiveSlot, h]

theorem readTo_congr {b : MarkerBook σ} {b' : MarkerBook τ} (h : b'.marks = b.marks)
    (s : Scope) : b'.readTo s = b.readTo s :=
  readTo_congr_mark (mark?_congr h s)

theorem covers_congr {b : MarkerBook σ} {b' : MarkerBook τ} (h : b'.marks = b.marks) (s : Scope)
    (q : Nat) : b'.covers s q = b.covers s q := by
  simp [covers, readTo_congr h]

theorem isStale_congr {b : MarkerBook σ} {b' : MarkerBook τ} (h : b'.marks = b.marks)
    (v : Visibility) (u : Update) : b'.isStale v u = b.isStale v u := by
  simp [isStale, mark?_congr h]

/-! ## One marker moves -/

theorem mark?_setMark (b : MarkerBook σ) (v v' : Visibility) (now : Nat) (u : Update)
    (s : Scope) : (b.setMark v now u).mark? s v' =
      if s = u.scope ∧ v' = v then some ⟨u.event, u.sequence, now⟩ else b.mark? s v' := by
  simp [mark?, setMark, Table.get?_insert]

theorem covers_setMark {b : MarkerBook σ} {v : Visibility} {u : Update}
    (h : b.isStale v u = false) (now : Nat) (s : Scope) (q : Nat) :
    (b.setMark v now u).covers s q = true ↔
      b.covers s q = true ∨ s = u.scope ∧ q ≤ u.sequence := by
  have fresh : ∀ m, b.mark? u.scope v = some m → m.sequence < u.sequence := by
    intro m hm
    rw [← Nat.not_le]
    intro hle
    have := isStale_iff.2 ⟨m, hm, hle⟩
    simp [h] at this
  simp only [covers_iff, mark?_setMark]
  constructor
  · rintro ⟨v', m, hm, hq⟩
    split at hm
    next e =>
      cases hm
      exact .inr ⟨e.1, hq⟩
    next => exact .inl ⟨v', m, hm, hq⟩
  · rintro (⟨v', m, hm, hq⟩ | ⟨rfl, hq⟩)
    · by_cases e : s = u.scope ∧ v' = v
      · obtain ⟨rfl, rfl⟩ := e
        have := fresh m hm
        exact ⟨v', _, if_pos ⟨rfl, rfl⟩, by simp; omega⟩
      · exact ⟨v', m, by rw [if_neg e]; exact hm, hq⟩
    · exact ⟨v, _, if_pos ⟨rfl, rfl⟩, hq⟩

section Advancing

variable [Backing σ] (b : MarkerBook σ)

theorem advance_of_isStale {v : Visibility} {u : Update} (h : b.isStale v u = true)
    (now : Nat) : b.advance u v now = (b, .ignored) := by
  simp [advance, h]

theorem marks_advance {v : Visibility} {u : Update} (h : b.isStale v u = false) (now : Nat) :
    (b.advance u v now).1.marks = (b.setMark v now u).marks := by
  simp only [advance, h, Bool.false_eq_true, if_false]
  split <;> rfl

theorem moved_advance (v : Visibility) (u : Update) (now : Nat) :
    (b.advance u v now).2.moved = !b.isStale v u := by
  cases h : b.isStale v u with
  | true => simp [advance_of_isStale b h, Advance.moved]
  | false =>
    simp only [advance, h, Bool.false_eq_true, if_false]
    split <;> rfl

theorem covers_advance (v : Visibility) (u : Update) (now : Nat) (s : Scope) (q : Nat) :
    (b.advance u v now).1.covers s q = true ↔
      b.covers s q = true ∨ s = u.scope ∧ q ≤ u.sequence := by
  cases h : b.isStale v u with
  | true =>
    rw [advance_of_isStale b h]
    constructor
    · exact .inl
    · rintro (hc | ⟨rfl, hq⟩)
      · exact hc
      · obtain ⟨m, hm, hle⟩ := isStale_iff.1 h
        exact covers_iff.2 ⟨v, m, hm, Nat.le_trans hq hle⟩
  | false => rw [covers_congr (marks_advance b h now), covers_setMark h]

end Advancing

/-! ## Several markers move -/

@[simp] theorem storage_setAll (v : Visibility) (now : Nat) (us : List Update)
    (b : MarkerBook σ) : (b.setAll v now us).1.storage = b.storage := by
  induction us generalizing b with
  | nil => rfl
  | cons u us ih =>
    simp only [setAll]
    split
    · exact ih b
    · exact ih _

@[simp] theorem unflushed_setAll (v : Visibility) (now : Nat) (us : List Update)
    (b : MarkerBook σ) : (b.setAll v now us).1.unflushed = b.unflushed := by
  induction us generalizing b with
  | nil => rfl
  | cons u us ih =>
    simp only [setAll]
    split
    · exact ih b
    · exact ih _

theorem setAll_congr (v : Visibility) (now : Nat) (us : List Update) {b : MarkerBook σ}
    {b' : MarkerBook τ} (h : b'.marks = b.marks) :
    (b'.setAll v now us).1.marks = (b.setAll v now us).1.marks ∧
      (b'.setAll v now us).2 = (b.setAll v now us).2 := by
  induction us generalizing b b' with
  | nil => exact ⟨h, rfl⟩
  | cons u us ih =>
    simp only [setAll, isStale_congr h]
    split
    · exact ih h
    · have hs : (b'.setMark v now u).marks = (b.setMark v now u).marks := by simp [setMark, h]
      exact ⟨(ih hs).1, by simp [(ih hs).2]⟩

theorem sublist_setAll (v : Visibility) (now : Nat) (us : List Update) (b : MarkerBook σ) :
    (b.setAll v now us).2.Sublist us := by
  induction us generalizing b with
  | nil => exact List.Sublist.refl []
  | cons u us ih =>
    simp only [setAll]
    split
    · exact (ih b).cons u
    · exact (ih _).cons_cons u

theorem covers_setAll (v : Visibility) (now : Nat) (us : List Update) (b : MarkerBook σ)
    (s : Scope) (q : Nat) :
    (b.setAll v now us).1.covers s q = true ↔
      b.covers s q = true ∨ ∃ u ∈ us, s = u.scope ∧ q ≤ u.sequence := by
  induction us generalizing b with
  | nil => simp [setAll]
  | cons u us ih =>
    simp only [setAll, List.mem_cons, exists_eq_or_imp]
    cases h : b.isStale v u with
    | true =>
      obtain ⟨m, hm, hle⟩ := isStale_iff.1 h
      simp only [if_true]
      rw [ih]
      constructor
      · rintro (hc | hc)
        · exact .inl hc
        · exact .inr (.inr hc)
      · rintro (hc | ⟨rfl, hq⟩ | hc)
        · exact .inl hc
        · exact .inl (covers_iff.2 ⟨v, m, hm, Nat.le_trans hq hle⟩)
        · exact .inr hc
    | false =>
      simp only [Bool.false_eq_true, if_false]
      rw [ih, covers_setMark h, or_assoc]

structure SetsWaiting (f : MarkerBook σ → Slot → MarkerBook σ) (waits : Option Unit) : Prop where
  marks : ∀ b slot, (f b slot).marks = b.marks
  storage : ∀ b slot, (f b slot).storage = b.storage
  unflushed : ∀ b slot slot', (f b slot).unflushed.get? slot' =
    if slot' = slot then waits else b.unflushed.get? slot'

theorem setsWaiting_settle : SetsWaiting (σ := σ) settle none where
  marks _ _ := rfl
  storage _ _ := rfl
  unflushed _ _ _ := Table.get?_erase _ _ _

theorem setsWaiting_defer : SetsWaiting (σ := σ) defer (some ()) where
  marks _ _ := rfl
  storage _ _ := rfl
  unflushed _ _ _ := Table.get?_insert _ _ _ _

namespace SetsWaiting

variable {f : MarkerBook σ → Slot → MarkerBook σ} {waits : Option Unit} (h : SetsWaiting f waits)

include h

theorem marks_foldl (us : List Update) (v : Visibility) (b : MarkerBook σ) :
    (us.foldl (fun b u => f b ⟨u.scope, v⟩) b).marks = b.marks := by
  induction us generalizing b with
  | nil => rfl
  | cons u us ih => exact (ih _).trans (h.marks _ _)

theorem storage_foldl (us : List Update) (v : Visibility) (b : MarkerBook σ) :
    (us.foldl (fun b u => f b ⟨u.scope, v⟩) b).storage = b.storage := by
  induction us generalizing b with
  | nil => rfl
  | cons u us ih => exact (ih _).trans (h.storage _ _)

theorem get?_foldl (us : List Update) (v : Visibility) (b : MarkerBook σ) (slot : Slot) :
    (us.foldl (fun b u => f b ⟨u.scope, v⟩) b).unflushed.get? slot =
      if ∃ u ∈ us, (⟨u.scope, v⟩ : Slot) = slot then waits else b.unflushed.get? slot := by
  induction us generalizing b with
  | nil => simp
  | cons u us ih =>
    rw [List.foldl_cons, ih, h.unflushed]
    by_cases hr : ∃ u' ∈ us, (⟨u'.scope, v⟩ : Slot) = slot
    · obtain ⟨u', hu', he⟩ := hr
      rw [if_pos ⟨u', hu', he⟩, if_pos ⟨u', List.mem_cons_of_mem _ hu', he⟩]
    · rw [if_neg hr]
      by_cases e : slot = ⟨u.scope, v⟩
      · rw [if_pos e, if_pos ⟨u, List.mem_cons_self, e.symm⟩]
      · rw [if_neg e, if_neg]
        rintro ⟨u', hu', he⟩
        rcases List.mem_cons.1 hu' with rfl | hu'
        · exact e he.symm
        · exact hr ⟨u', hu', he⟩

end SetsWaiting

section Advancing

variable [Backing σ] (b : MarkerBook σ)

theorem marks_advanceAll (us : List Update) (v : Visibility) (now : Nat) :
    (b.advanceAll us v now).1.marks = (b.setAll v now us).1.marks := by
  simp only [advanceAll]
  split
  · rfl
  · split
    · exact setsWaiting_settle.marks_foldl _ _ _
    · exact setsWaiting_defer.marks_foldl _ _ _

theorem moved_advanceAll (us : List Update) (v : Visibility) (now : Nat) :
    (b.advanceAll us v now).2.1 = (b.setAll v now us).2 := by
  simp only [advanceAll]
  split
  next h => exact (List.isEmpty_iff.1 h).symm
  next => split <;> rfl

theorem covers_advanceAll (us : List Update) (v : Visibility) (now : Nat) (s : Scope)
    (q : Nat) :
    (b.advanceAll us v now).1.covers s q = true ↔
      b.covers s q = true ∨ ∃ u ∈ us, s = u.scope ∧ q ≤ u.sequence := by
  rw [covers_congr (marks_advanceAll b us v now), covers_setAll]

/-! ## Writing again -/

theorem marks_flushSlots (slots : List Slot) : (flushSlots slots b).1.marks = b.marks := by
  induction slots generalizing b with
  | nil => rfl
  | cons slot slots ih =>
    simp only [flushSlots]
    split
    · exact ih b
    · split
      · exact ih _
      · split
        · exact ih _
        · exact ih _

def retried : MarkerBook σ := if b.unflushed.isEmpty then b else b.flush.1

theorem flush_fst : b.flush.1 =
    (flushSlots b.unflushed.keys { b with unflushed := .empty }).1 := by
  unfold flush
  split
  next h => rw [h]
  next h => rw [h]

theorem marks_flush : b.flush.1.marks = b.marks := by
  rw [flush_fst, marks_flushSlots]

theorem marks_retried : b.retried.marks = b.marks := by
  unfold retried
  split
  · rfl
  · exact b.marks_flush

end Advancing

end ReadTracking.MarkerBook
