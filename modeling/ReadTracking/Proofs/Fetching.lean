import ReadTracking.Proofs.Queueing
import ReadTracking.Proofs.Requests

/-!
# Only jumps ask for messages

Reading asks for receipts to be sent and tells of markers that could not be stored, and what comes
in asks for nothing else.  So the only command that asks for messages is a jump, and it asks once,
before anything else.
-/

set_option autoImplicit false

namespace ReadTracking

variable {σ : Type}

namespace Turn

def requests (r : Turn σ) : List Nat := r.actions.filterMap Action.request?

theorem requests_warned (r : Turn σ) (v : Visibility) (us : List Update) (a : Advance) :
    (r.actions ++ warnings v us a).filterMap Action.request? = r.requests := by
  rw [List.filterMap_append, request?_warnings, List.append_nil]
  rfl

theorem requests_foldl {α : Type} {f : Turn σ → α → Turn σ}
    (step : ∀ r x, (f r x).requests = r.requests) (xs : List α) (r : Turn σ) :
    (xs.foldl f r).requests = r.requests := by
  induction xs generalizing r with
  | nil => rfl
  | cons x xs ih => exact (ih _).trans (step r x)

theorem requests_due (sends : SendQueue) (now : Nat) : ((sends.release now).2.map fun o =>
    Action.send o.slot.scope o.event o.slot.visibility).filterMap Action.request? = [] := by
  rw [List.filterMap_map]
  exact List.filterMap_eq_nil_iff.2 fun _ _ => rfl

theorem requests_releaseAt (r : Turn σ) (now : Nat) : (r.releaseAt now).requests = r.requests := by
  refine List.filterMap_append.trans ?_
  exact (congrArg _ (requests_due r.tracker.sends now)).trans (List.append_nil _)

theorem requests_hold (r : Turn σ) (room : RoomId) (event : EventId) (v : Visibility)
    (reach : Reach) : (r.hold room event v reach).requests = r.requests := rfl

variable [Backing σ]

theorem requests_read (r : Turn σ) (u : Update) : (r.read u).requests = r.requests := by
  by_cases h : r.tracker.book.covers u.scope u.sequence = true
  · rw [r.read_of_covers h]
  · rw [r.read_of_not_covers h]
    exact r.requests_warned _ _ _

theorem requests_readAll (r : Turn σ) (us : List Update) :
    (r.readAll us).requests = r.requests := by
  rw [readAll_eq]
  exact r.requests_warned _ _ _

theorem requests_readToEnd (r : Turn σ) (s : Scope) : (r.readToEnd s).requests = r.requests := by
  rw [readToEnd_eq]
  exact requests_foldl requests_read _ r

theorem requests_readElsewhere (r : Turn σ) (u : Update) (v : Visibility) :
    (r.readElsewhere u v).requests = r.requests := by
  rw [readElsewhere_eq]
  exact r.requests_warned _ _ _

theorem requests_applyReceipt (r : Turn σ) (u : Update) (v : Visibility) (reach : Reach) :
    (r.applyReceipt u v reach).requests = r.requests := by
  cases reach with
  | scope => exact r.requests_readElsewhere u v
  | room =>
    show (r.readRoomElsewhere u.scope.room u.sequence v).requests = r.requests
    rw [readRoomElsewhere_eq]
    exact r.requests_warned _ _ _

theorem requests_readOwn (r : Turn σ) (p : Placed) : (r.readOwn p).requests = r.requests := by
  simp only [readOwn]
  split
  · rfl
  · split
    · exact r.requests_readElsewhere _ _
    · rfl

theorem requests_releaseHeld (r : Turn σ) (p : Placed) :
    (r.releaseHeld p).requests = r.requests := by
  simp only [releaseHeld]
  split
  · rfl
  · exact requests_foldl (fun r w => r.requests_applyReceipt _ _ _) _ _

theorem requests_afterPlacing (r : Turn σ) (placed : List Placed) :
    (r.afterPlacing placed).requests = r.requests :=
  requests_foldl (fun r p => (requests_releaseHeld _ p).trans (r.requests_readOwn p)) placed r

theorem requests_followLive (r : Turn σ) (room : RoomId) (placed : List Placed) (limited : Bool) :
    (r.followLive room placed limited).requests = r.requests := by
  rw [followLive_eq]
  exact requests_foldl requests_read _ r

end Turn

def Command.isJump : Command → Bool
  | .jump _ _ _ => true
  | .markRoomRead _ | .viewRoom _ | .viewThread _ _ | .closeThread | .leave | .supply _ _
  | .receive _ _ _ | .backfill _ _ _ | .receipt _ _ _ _ _ | .sendFailed _ _ _ | .forget _
  | .tick _ => false

namespace Tracker

variable [Backing σ]

theorem requests_supply (t : Tracker σ) (request : Nat) (messages : List Message) :
    (t.supply request messages).requests = [] := by
  simp only [supply]
  split
  · rfl
  split
  · split
    · rfl
    · split
      · exact ((Turn.request?_finish _ _).trans (Turn.request?_land _ _ _)).trans
          (Turn.requests_afterPlacing _ _)
      · exact (Turn.request?_finish _ _).trans (Turn.requests_afterPlacing _ _)
  · rfl

theorem requests_eq_nil (t : Tracker σ) {c : Command} (hc : c.isJump = false) :
    (t.handle c).requests = [] := by
  cases c with
  | jump => cases hc
  | sendFailed => rfl
  | supply request messages => exact t.requests_supply request messages
  | markRoomRead room =>
    exact (Turn.request?_finish _ room).trans (Turn.requests_readAll _ _)
  | viewRoom room => exact (Turn.request?_finish _ room).trans (Turn.requests_readToEnd _ _)
  | closeThread => exact Turn.request?_release _
  | leave => exact Turn.request?_release _
  | viewThread room root =>
    show (t.viewThread room root).requests = []
    simp only [viewThread]
    split
    · refine (Turn.request?_finish _ room).trans ?_
      split
      · exact (Turn.requests_read _ _).trans (Turn.requests_readToEnd _ _)
      · exact Turn.requests_readToEnd _ _
    · rfl
  | receive room messages limited =>
    exact (Turn.request?_finish _ room).trans
      ((Turn.requests_followLive _ _ _ _).trans (Turn.requests_afterPlacing _ _))
  | backfill room messages filled =>
    exact (Turn.request?_finish _ room).trans (Turn.requests_afterPlacing _ _)
  | receipt room user event v reach =>
    show (t.receipt room user event v reach).requests = []
    simp only [receipt]
    split
    · split
      · exact (Turn.request?_finish _ _).trans (Turn.requests_applyReceipt _ _ _ _)
      · exact (Turn.request?_release _).trans (Turn.requests_hold _ _ _ _ _)
    · rfl
  | forget room =>
    show (t.forget room).requests = []
    unfold forget
    split <;> rfl
  | tick now =>
    show (t.tick now).requests = []
    rw [tick_eq]
    exact Turn.requests_releaseAt _ now

/-- A jump asks for nothing, or first of all for messages, and then waits for them. -/
theorem jump_asks (t : Tracker σ) (room : RoomId) (event : EventId) (includeThreads : Bool) :
    (t.jump room event includeThreads).requests = [] ∨
      ∃ request sends, (t.jump room event includeThreads).reply =
          .ok (.fetch request room event :: sends) ∧ sends.filterMap Action.request? = [] ∧
        (t.jump room event includeThreads).tracker.awaited =
          some ⟨request, room, event, includeThreads⟩ := by
  simp only [jump]
  cases Turn.barrier t.chronicle event includeThreads with
  | some root => exact .inl rfl
  | none =>
    cases t.chronicle.get? event with
    | some e =>
      exact .inl ((Turn.request?_finish _ room).trans (Turn.request?_land _ room e))
    | none =>
      exact .inr ⟨t.ambient.number.2, _, rfl,
        Turn.requests_due t.sends t.ambient.number.1.elapsed, rfl⟩

end Tracker

end ReadTracking
