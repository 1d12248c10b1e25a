import ReadTracking.Proofs.Turns

/-!
# What receipts leave aside

A receipt, whether it comes from another session or from a message of the reader's own, moves
markers and may be told of.  It leaves aside everything else: the messages, what waits to be
sent, the focus and the jump that waits.  And it never takes back what was read.
-/

set_option autoImplicit false

namespace ReadTracking.Turn

variable {σ : Type}

/-- One turn goes on as another in which only the book, what is held, the actions and the date
may have changed, and in which all is read that was. -/
structure Aside (r r' : Turn σ) : Prop where
  ambient : r'.tracker.ambient = r.tracker.ambient
  policy : r'.tracker.policy = r.tracker.policy
  reader : r'.tracker.reader = r.tracker.reader
  chronicle : r'.tracker.chronicle = r.tracker.chronicle
  sends : r'.tracker.sends = r.tracker.sends
  listeners : r'.tracker.listeners = r.tracker.listeners
  reported : r'.tracker.reported = r.tracker.reported
  focus : r'.tracker.focus = r.tracker.focus
  awaited : r'.tracker.awaited = r.tracker.awaited
  notices : r'.notices = r.notices
  covers : ∀ s q, r.tracker.book.covers s q = true → r'.tracker.book.covers s q = true

namespace Aside

variable {r r' r'' : Turn σ}

theorem refl (r : Turn σ) : r.Aside r :=
  ⟨rfl, rfl, rfl, rfl, rfl, rfl, rfl, rfl, rfl, rfl, fun _ _ h => h⟩

theorem trans (h : r.Aside r') (h' : r'.Aside r'') : r.Aside r'' where
  ambient := h'.ambient.trans h.ambient
  policy := h'.policy.trans h.policy
  reader := h'.reader.trans h.reader
  chronicle := h'.chronicle.trans h.chronicle
  sends := h'.sends.trans h.sends
  listeners := h'.listeners.trans h.listeners
  reported := h'.reported.trans h.reported
  focus := h'.focus.trans h.focus
  awaited := h'.awaited.trans h.awaited
  notices := h'.notices.trans h.notices
  covers s q hc := h'.covers s q (h.covers s q hc)

theorem foldl {α : Type} {f : Turn σ → α → Turn σ}
    (step : ∀ (r : Turn σ) x, r.Aside (f r x)) (r : Turn σ)
    (xs : List α) : r.Aside (xs.foldl f r) := by
  induction xs generalizing r with
  | nil => exact refl r
  | cons x xs ih => exact (step r x).trans (ih _)

end Aside

section

variable [Backing σ] (r : Turn σ)

theorem aside_readElsewhere (u : Update) (v : Visibility) : r.Aside (r.readElsewhere u v) := by
  rw [readElsewhere_eq]
  refine ⟨rfl, rfl, rfl, rfl, rfl, rfl, rfl, rfl, rfl, rfl, fun s q hc => ?_⟩
  exact (MarkerBook.covers_advance _ _ _ _ _ _).2 (.inl hc)

theorem aside_readRoomElsewhere (room : RoomId) (sequence : Nat) (v : Visibility) :
    r.Aside (r.readRoomElsewhere room sequence v) := by
  rw [readRoomElsewhere_eq]
  refine ⟨rfl, rfl, rfl, rfl, rfl, rfl, rfl, rfl, rfl, rfl, fun s q hc => ?_⟩
  exact (MarkerBook.covers_advanceAll _ _ _ _ _ _).2 (.inl hc)

theorem aside_applyReceipt (u : Update) (v : Visibility) (reach : Reach) :
    r.Aside (r.applyReceipt u v reach) := by
  cases reach with
  | scope => exact r.aside_readElsewhere u v
  | room => exact r.aside_readRoomElsewhere u.scope.room u.sequence v

omit [Backing σ] in
theorem aside_hold (room : RoomId) (event : EventId) (v : Visibility) (reach : Reach) :
    r.Aside (r.hold room event v reach) := by
  simp only [hold, update]
  split
  · exact ⟨rfl, rfl, rfl, rfl, rfl, rfl, rfl, rfl, rfl, rfl, fun _ _ h => h⟩
  · split
    · exact Aside.refl r
    · exact ⟨rfl, rfl, rfl, rfl, rfl, rfl, rfl, rfl, rfl, rfl, fun _ _ h => h⟩

theorem aside_readOwn (p : Placed) : r.Aside (r.readOwn p) := by
  simp only [readOwn]
  split
  · exact Aside.refl r
  · split
    · exact r.aside_readElsewhere _ _
    · exact Aside.refl r

theorem aside_releaseHeld (p : Placed) : r.Aside (r.releaseHeld p) := by
  simp only [releaseHeld]
  split
  · exact Aside.refl r
  · refine Aside.trans ?_ (Aside.foldl (fun r (w : Visibility × Reach) =>
      r.aside_applyReceipt _ w.1 w.2) _ _)
    exact ⟨rfl, rfl, rfl, rfl, rfl, rfl, rfl, rfl, rfl, rfl, fun _ _ h => h⟩

theorem aside_afterPlacing (placed : List Placed) : r.Aside (r.afterPlacing placed) :=
  Aside.foldl (fun r p => (r.aside_readOwn p).trans ((r.readOwn p).aside_releaseHeld p)) r placed

end

end ReadTracking.Turn
