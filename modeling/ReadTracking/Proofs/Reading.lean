import ReadTracking.Proofs.Aside
import ReadTracking.Proofs.Waiting

/-!
# Reading on this device queues what it reads

Nothing waits to be sent for a scope that is not read at least as far.  So when reading on this
device moves the personal marker of a scope, the receipt that waits for that scope afterwards is
the one for the new marker, and where the marker stays what waits stays as well.
-/

set_option autoImplicit false

namespace ReadTracking.Tracker

variable {σ : Type}

def sendSlot (t : Tracker σ) (s : Scope) : Slot := ⟨s, t.sendVisibility⟩

def SendsCovered (t : Tracker σ) : Prop :=
  ∀ slot q, t.sends.waiting? slot = some q → t.book.covers slot.scope q.sequence = true

structure Reading (t t' : Tracker σ) : Prop where
  policy : t'.policy = t.policy
  covers : ∀ s q, t.book.covers s q = true → t'.book.covers s q = true
  covered : t'.SendsCovered
  remains : ∀ s, t'.book.mark? s .personal = none → t.book.mark? s .personal = none
  stays : ∀ s, t'.book.mark? s .personal = t.book.mark? s .personal →
    t'.sends.waiting? (t.sendSlot s) = t.sends.waiting? (t.sendSlot s)
  moves : ∀ s m, t'.book.mark? s .personal = some m → t.book.mark? s .personal ≠ some m →
    ∃ since, t'.sends.waiting? (t.sendSlot s) = some ⟨m.event, m.sequence, since⟩
  keeps : ∀ slot q, t.sends.waiting? slot = some q →
    ∃ q', t'.sends.waiting? slot = some q' ∧ q'.since = q.since ∧ q.sequence ≤ q'.sequence

namespace Reading

variable {t t' t'' : Tracker σ}

theorem refl (h : t.SendsCovered) : t.Reading t where
  policy := rfl
  covers _ _ hc := hc
  covered := h
  remains _ h := h
  stays _ _ := rfl
  moves _ _ hm hn := absurd hm hn
  keeps _ q hq := ⟨q, hq, rfl, Nat.le_refl _⟩

theorem congr (h : t.Reading t') (hp : t''.policy = t'.policy)
    (hm : t''.book.marks = t'.book.marks) (hs : t''.sends = t'.sends) : t.Reading t'' where
  policy := hp.trans h.policy
  covers s q hc := by rw [MarkerBook.covers_congr hm]; exact h.covers s q hc
  covered slot q hq := by
    rw [hs] at hq
    rw [MarkerBook.covers_congr hm]
    exact h.covered slot q hq
  remains s := by rw [MarkerBook.mark?_congr hm]; exact h.remains s
  stays s := by rw [MarkerBook.mark?_congr hm, hs]; exact h.stays s
  moves s m := by rw [MarkerBook.mark?_congr hm, hs]; exact h.moves s m
  keeps slot q := by rw [hs]; exact h.keeps slot q

theorem sendSlot (h : t.Reading t') (s : Scope) : t'.sendSlot s = t.sendSlot s := by
  simp only [Tracker.sendSlot, Tracker.sendVisibility, h.policy]

theorem note (h : t.Reading t') {u : Update}
    (hu : ¬ t'.book.covers u.scope u.sequence = true) (now : Nat) :
    t.Reading { t' with
      book := t'.book.setMark .personal now u
      sends := t'.queued [u] } := by
  have hstale := MarkerBook.isStale_eq_false_of_not_covers .personal hu
  have hq : ∀ q, t'.sends.waiting? (t.sendSlot u.scope) = some q → q.sequence < u.sequence := by
    intro q hq
    rw [← Nat.not_le]
    intro hle
    exact hu (MarkerBook.covers_of_le hle (h.covered _ _ hq))
  obtain ⟨since, hself, hsince⟩ :=
    SendQueue.waiting?_queue_self t'.sends u.event t'.ambient.elapsed hq
  have hsends : t'.queued [u] =
      t'.sends.queue (t.sendSlot u.scope) u.event u.sequence t'.ambient.elapsed := by
    rw [← h.sendSlot]; rfl
  have hother : ∀ slot, slot ≠ t.sendSlot u.scope →
      (t'.queued [u]).waiting? slot = t'.sends.waiting? slot := by
    intro slot hn
    rw [hsends, SendQueue.waiting?_queue, if_neg hn]
  rw [← hsends] at hself
  have hcovers : ∀ s q, (t'.book.setMark .personal now u).covers s q = true ↔
      t'.book.covers s q = true ∨ s = u.scope ∧ q ≤ u.sequence :=
    fun s q => MarkerBook.covers_setMark hstale now s q
  refine ⟨h.policy, ?_, ?_, ?_, ?_, ?_, ?_⟩
  · intro s q hc
    exact (hcovers s q).2 (.inl (h.covers s q hc))
  · intro slot q hw
    apply (hcovers _ _).2
    by_cases e : slot = t.sendSlot u.scope
    · subst e
      rw [show ({ t' with book := _, sends := t'.queued [u] } : Tracker σ).sends = t'.queued [u]
        from rfl, hself] at hw
      cases hw
      exact .inr ⟨rfl, Nat.le_refl _⟩
    · exact .inl (h.covered slot q ((hother slot e).symm.trans hw))
  · intro s hs
    rw [MarkerBook.mark?_setMark] at hs
    split at hs
    · cases hs
    · exact h.remains s hs
  · intro s hs
    rw [MarkerBook.mark?_setMark] at hs
    by_cases e : s = u.scope
    · subst e
      rw [if_pos ⟨rfl, rfl⟩] at hs
      have hc : t.book.covers u.scope u.sequence = true :=
        MarkerBook.covers_iff.2 ⟨_, _, hs.symm, Nat.le_refl _⟩
      exact absurd (h.covers _ _ hc) hu
    · rw [if_neg (fun k => e k.1)] at hs
      rw [← h.stays s hs]
      exact hother _ fun k => e (congrArg Slot.scope k)
  · intro s m hm hn
    rw [MarkerBook.mark?_setMark] at hm
    by_cases e : s = u.scope
    · subst e
      rw [if_pos ⟨rfl, rfl⟩] at hm
      cases hm
      exact ⟨since, hself⟩
    · rw [if_neg (fun k => e k.1)] at hm
      obtain ⟨since', hw⟩ := h.moves s m hm hn
      exact ⟨since', (hother _ fun k => e (congrArg Slot.scope k)).trans hw⟩
  · intro slot q hw
    obtain ⟨q', hw', he, hle⟩ := h.keeps slot q hw
    by_cases e : slot = t.sendSlot u.scope
    · subst e
      exact ⟨_, hself, (hsince q' hw').trans he, Nat.le_trans hle (Nat.le_of_lt (hq q' hw'))⟩
    · exact ⟨q', (hother slot e).trans hw', he, hle⟩

theorem noteAll {us : List Update} (h : t.Reading t') (now : Nat)
    (hus : ∀ u ∈ us, t'.book.isStale .personal u = true ∨
      ¬ t'.book.covers u.scope u.sequence = true)
    (hsame : ∀ u ∈ us, ∀ u' ∈ us, u.scope = u'.scope → u = u') :
    t.Reading { t' with
      book := (t'.book.setAll .personal now us).1
      sends := t'.queued (t'.book.setAll .personal now us).2 } := by
  induction us generalizing t' with
  | nil => exact h
  | cons u us ih =>
    have hrest : ∀ u₁ ∈ us, ∀ u₂ ∈ us, u₁.scope = u₂.scope → u₁ = u₂ := fun u₁ h₁ u₂ h₂ =>
      hsame u₁ (List.mem_cons_of_mem _ h₁) u₂ (List.mem_cons_of_mem _ h₂)
    cases hstale : t'.book.isStale .personal u with
    | true =>
      simp only [MarkerBook.setAll, hstale, if_true]
      exact ih h (fun u' hu' => hus u' (List.mem_cons_of_mem _ hu')) hrest
    | false =>
      have hu : ¬ t'.book.covers u.scope u.sequence = true := by
        rcases hus u List.mem_cons_self with hs | hc
        · rw [hstale] at hs
          cases hs
        · exact hc
      simp only [MarkerBook.setAll, hstale, Bool.false_eq_true, if_false]
      refine ih (h.note hu now) ?_ hrest
      -- A wish for the scope that was just read is the same wish, and comes too late.
      intro u' hu'
      by_cases e : u'.scope = u.scope
      · left
        have := hsame u' (List.mem_cons_of_mem _ hu') u List.mem_cons_self e
        subst this
        refine MarkerBook.isStale_iff.2 ⟨⟨u'.event, u'.sequence, now⟩, ?_, Nat.le_refl _⟩
        rw [MarkerBook.mark?_setMark, if_pos ⟨rfl, rfl⟩]
      · rcases hus u' (List.mem_cons_of_mem _ hu') with hs | hc
        · left
          obtain ⟨m, hm, hle⟩ := MarkerBook.isStale_iff.1 hs
          refine MarkerBook.isStale_iff.2 ⟨m, ?_, hle⟩
          rw [MarkerBook.mark?_setMark, if_neg (fun k => e k.1)]
          exact hm
        · right
          rw [MarkerBook.covers_setMark hstale]
          rintro (hc' | ⟨he, -⟩)
          · exact hc hc'
          · exact e he

end Reading

/-! ## Turns that read -/

section

variable [Backing σ] {t : Tracker σ} {r : Turn σ}

theorem Reading.read (h : t.Reading r.tracker) (u : Update) : t.Reading (r.read u).tracker := by
  by_cases hu : r.tracker.book.covers u.scope u.sequence = true
  · rw [r.read_of_covers hu]
    exact h
  · rw [r.read_of_not_covers hu]
    refine (h.note hu r.tracker.ambient.wallClock).congr rfl ?_ rfl
    exact r.tracker.book.marks_advance
      (MarkerBook.isStale_eq_false_of_not_covers .personal hu) _

theorem Reading.readToEnd (h : t.Reading r.tracker) (s : Scope) :
    t.Reading (r.readToEnd s).tracker := by
  unfold Turn.readToEnd
  split
  · exact h.read _
  · exact h

theorem scope_of_horizon {c : Chronicle} {s : Scope} {u : Update} (h : Turn.horizon c s = some u) :
    u.scope = s := by
  simp only [Turn.horizon, Option.map_eq_some_iff] at h
  obtain ⟨_, _, rfl⟩ := h
  rfl

theorem Reading.readAll_unreadEnds (h : t.Reading r.tracker) (room : RoomId) :
    t.Reading (r.readAll (r.tracker.unreadEnds room)).tracker := by
  rw [r.readAll_eq, MarkerBook.moved_advanceAll]
  refine (h.noteAll r.tracker.ambient.wallClock ?_ ?_).congr rfl ?_ rfl
  · intro u hu
    simp only [unreadEnds, List.mem_filter, Bool.not_eq_true'] at hu
    right
    simp [hu.2]
  · intro u hu u' hu' he
    simp only [unreadEnds, List.mem_filter, List.mem_filterMap] at hu hu'
    obtain ⟨⟨s, _, hs⟩, -⟩ := hu
    obtain ⟨⟨s', _, hs'⟩, -⟩ := hu'
    rw [scope_of_horizon hs, scope_of_horizon hs'] at he
    subst he
    exact Option.some.inj (hs.symm.trans hs')
  · exact MarkerBook.marks_advanceAll _ _ _ _

theorem Reading.followLive (h : t.Reading r.tracker) (room : RoomId) (placed : List Placed)
    (limited : Bool) : t.Reading (r.followLive room placed limited).tracker :=
  Turn.followLive_induction (P := fun r => t.Reading r.tracker) h
    (fun s _ _ h => h.readToEnd s) placed limited

theorem Reading.land (h : t.Reading r.tracker) (room : RoomId) (e : Indexed) :
    t.Reading (r.land room e).tracker := by
  refine Reading.read ?_ _
  exact h.congr rfl rfl rfl

omit [Backing σ] in
theorem Reading.report (h : t.Reading r.tracker) (room : RoomId) :
    t.Reading (r.report room).tracker := by
  unfold Turn.report
  dsimp only
  split
  · exact h
  · exact h.congr rfl rfl rfl

end

end ReadTracking.Tracker
