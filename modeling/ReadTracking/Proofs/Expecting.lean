import ReadTracking.Proofs.Conduct

/-!
# What is expected

Receipts are held for messages that have not come, and a jump waits for the messages around its
own.  Reading on this device leaves both as they are, and so do reporting and sending.  So it can
be told of every command what it makes of them: what comes takes the receipts for it along, a
receipt for a message that is not there is held with the others, and whoever looks elsewhere calls
off the jump.
-/

set_option autoImplicit false

namespace ReadTracking

/-! ## Receipts that are held -/

theorem Held.mem_add {h : Held} {x w : Visibility × Reach} :
    w ∈ (h.add x).receipts ↔ w = x ∨ w ∈ h.receipts := by
  unfold add
  split
  next hx => exact ⟨.inr, fun hw => hw.elim (fun e => e ▸ hx) id⟩
  next => rw [List.mem_append, List.mem_singleton, or_comm]

theorem Held.nodup_add {h : Held} (hn : h.receipts.Nodup) (x : Visibility × Reach) :
    (h.add x).receipts.Nodup := by
  unfold add
  split
  next => exact hn
  next hx =>
    refine List.nodup_append.2 ⟨hn, List.pairwise_singleton _ _, fun w hw w' hw' e => hx ?_⟩
    rw [List.mem_singleton] at hw'
    exact hw' ▸ e ▸ hw

namespace Turn

variable {σ : Type}

/-- A receipt is held with those for the same message, unless receipts are held for too many
messages and for this one there is none. -/
theorem hold_cases (r : Turn σ) (room : RoomId) (event : EventId) (v : Visibility)
    (reach : Reach) :
    (r.tracker.held.get? event = none ∧ Tracker.maxHeld ≤ r.tracker.held.size ∧
        r.hold room event v reach = r) ∨
      (r.tracker.held.get? event = none → r.tracker.held.size < Tracker.maxHeld) ∧
        r.hold room event v reach = { r with tracker := { r.tracker with
          held := r.tracker.held.insert event
            (((r.tracker.held.get? event).getD ⟨room, []⟩).add (v, reach)) } } := by
  unfold hold update
  cases he : r.tracker.held.get? event with
  | none =>
    by_cases hfull : Tracker.maxHeld ≤ r.tracker.held.size
    · left
      simp only [he, if_pos hfull, true_and]
      exact ⟨hfull, trivial⟩
    · right
      simp only [he, if_neg hfull]
      exact ⟨fun _ => Nat.lt_of_not_le hfull, rfl⟩
  | some y =>
    right
    simp only [he]
    exact ⟨nofun, rfl⟩

/-! ## Reading expects as before -/

structure Expects (r r' : Turn σ) : Prop where
  held : r'.tracker.held = r.tracker.held
  awaited : r'.tracker.awaited = r.tracker.awaited

namespace Expects

variable {r r' r'' : Turn σ}

theorem refl (r : Turn σ) : r.Expects r := ⟨rfl, rfl⟩

theorem trans (h : r.Expects r') (h' : r'.Expects r'') : r.Expects r'' :=
  ⟨h'.held.trans h.held, h'.awaited.trans h.awaited⟩

end Expects

theorem expects_release (r : Turn σ) : r.Expects r.release := ⟨rfl, rfl⟩

theorem expects_finish (r : Turn σ) (room : RoomId) : r.Expects (r.report room).release := by
  obtain ⟨reported, notices, h⟩ := r.report_eq room
  rw [h]
  exact ⟨rfl, rfl⟩

variable [Backing σ] (r : Turn σ)

theorem expects_read (u : Update) : r.Expects (r.read u) := by
  by_cases h : r.tracker.book.covers u.scope u.sequence = true
  · rw [r.read_of_covers h]
    exact .refl r
  · rw [r.read_of_not_covers h]
    exact ⟨rfl, rfl⟩

theorem expects_readAll (us : List Update) : r.Expects (r.readAll us) := by
  rw [readAll_eq]
  exact ⟨rfl, rfl⟩

theorem expects_readToEnd (s : Scope) : r.Expects (r.readToEnd s) := by
  unfold readToEnd
  split
  · exact r.expects_read _
  · exact .refl r

theorem expects_read_looking (focus : Option Focus) (u : Update) :
    r.Expects ((r.update fun t => { t with focus }).read u) := by
  have h := (r.update fun t => { t with focus }).expects_read u
  exact ⟨h.held, h.awaited⟩

theorem expects_land (room : RoomId) (e : Indexed) : r.Expects (r.land room e) := by
  unfold land
  exact r.expects_read_looking _ _

theorem expects_followLive (room : RoomId) (placed : List Placed) (limited : Bool) :
    r.Expects (r.followLive room placed limited) :=
  followLive_induction (.refl r) (fun s r' _ h => h.trans (r'.expects_readToEnd s)) placed limited

theorem expects_applyReceipt (u : Update) (v : Visibility) (reach : Reach) :
    r.Expects (r.applyReceipt u v reach) :=
  ⟨r.held_applyReceipt u v reach, (r.aside_applyReceipt u v reach).awaited⟩

end Turn

/-! ## Commands -/

namespace Tracker

variable {σ : Type}

inductive Holds (t : Tracker σ) : Command → Table EventId Held → Prop where
  | settle {c : Command} {held : Table EventId Held}
    (h : ∀ id, held.get? id =
      if id ∈ (t.placed c).map (·.id) then none else t.held.get? id) : Holds t c held
  | hold (room : RoomId) {event : EventId} (hn : t.chronicle.get? event = none)
    (v : Visibility) (reach : Reach) : Holds t (.receipt room t.reader event v reach)
      (({ tracker := t } : Turn σ).hold room event v reach).tracker.held
  | drop (room : RoomId) : Holds t (.forget room) (t.held.filter fun _ h => h.room != room)

def awaitedAfter [Backing σ] (t : Tracker σ) : Command → Option Awaited
  | .viewRoom _ | .leave => none
  | .viewThread room root =>
    if t.chronicle.rootKnown room root || t.chronicle.hasThread room root then none
    else t.awaited
  | .jump room event includeThreads =>
    match Turn.barrier t.chronicle event includeThreads with
    | some _ => t.awaited
    | none =>
      match t.chronicle.get? event with
      | some _ => none
      | none => some ⟨t.ambient.number.2, room, event, includeThreads⟩
  | .supply request _ => t.awaited.filter fun a => a.request != request
  | .forget room =>
    match (t.book.forget room).2 with
    | .error _ => t.awaited
    | .ok _ => t.awaited.filter fun a => a.room != room
  | .markRoomRead _ | .closeThread | .receive _ _ _ | .backfill _ _ _ | .receipt _ _ _ _ _
  | .sendFailed _ _ _ | .tick _ => t.awaited

structure Foresees [Backing σ] (t : Tracker σ) (c : Command) (t' : Tracker σ) : Prop where
  held : t.Holds c t'.held
  awaited : t'.awaited = t.awaitedAfter c

variable [Backing σ] {t : Tracker σ} {c : Command}

theorem Foresees.of_turn {r r' : Turn σ} (hb : t.batch? c = none) (hh : r.tracker.held = t.held)
    (ha : r.tracker.awaited = t.awaitedAfter c) (h : r.Expects r') : t.Foresees c r'.tracker := by
  refine ⟨.settle fun id => ?_, h.awaited.trans ha⟩
  rw [placed_eq_nil hb, h.held, hh]
  rfl

theorem Foresees.of_batch {r : Turn σ} {awaited : Option Awaited}
    (ha : awaited = t.awaitedAfter c)
    (h : (({ tracker := { t.loaded c with awaited } } : Turn σ).afterPlacing
      (t.placed c)).Expects r) : t.Foresees c r.tracker := by
  obtain ⟨chronicle, hl⟩ := t.loaded_with c
  have hw := Turn.aside_afterPlacing { tracker := { t.loaded c with awaited } } (t.placed c)
  refine ⟨.settle fun id => ?_, (h.awaited.trans hw.awaited).trans ha⟩
  rw [h.held, Turn.get?_held_afterPlacing, hl]

variable (t)

theorem foresees_viewThread (room : RoomId) (root : EventId) :
    t.Foresees (.viewThread room root) (t.viewThread room root).tracker := by
  by_cases hk : (t.chronicle.rootKnown room root || t.chronicle.hasThread room root) = true
  case neg =>
    simp only [viewThread, if_neg hk]
    exact .of_turn rfl rfl (if_neg hk).symm (.refl { tracker := t })
  simp only [viewThread, if_pos hk]
  let r : Turn σ :=
    { tracker := { t with awaited := none, focus := some ⟨room, some root, true⟩ } }
  have hread : r.Expects (r.readToEnd (.ofThread room root)) := r.expects_readToEnd _
  have hnone : r.tracker.awaited = t.awaitedAfter (.viewThread room root) := (if_pos hk).symm
  split
  · exact .of_turn rfl rfl hnone
      ((hread.trans (Turn.expects_read _ _)).trans (Turn.expects_finish _ room))
  · exact .of_turn rfl rfl hnone (hread.trans (Turn.expects_finish _ room))

theorem foresees_jump (room : RoomId) (event : EventId) (includeThreads : Bool) :
    t.Foresees (.jump room event includeThreads) (t.jump room event includeThreads).tracker := by
  cases hb : Turn.barrier t.chronicle event includeThreads with
  | some root =>
    simp only [jump, hb]
    exact .of_turn rfl rfl (by simp only [awaitedAfter, hb]) (.refl { tracker := t })
  | none =>
    cases he : t.chronicle.get? event with
    | some e =>
      simp only [jump, hb, he]
      refine .of_turn (r := { tracker := { t with awaited := none } }) rfl rfl ?_
        ((Turn.expects_land _ room e).trans (Turn.expects_finish _ room))
      simp only [awaitedAfter, hb, he]
    | none =>
      simp only [jump, hb, he]
      refine .of_turn rfl rfl ?_ (Turn.expects_release _)
      simp only [awaitedAfter, hb, he]
      rfl

theorem foresees_supply (request : Nat) (messages : List Message) :
    t.Foresees (.supply request messages) (t.supply request messages).tracker := by
  cases ha : t.awaited with
  | none =>
    have hb : t.batch? (.supply request messages) = none := by simp [batch?, ha]
    simp only [supply, ha]
    exact .of_turn hb rfl (by simp only [awaitedAfter, ha]; rfl) (.refl { tracker := t })
  | some a =>
    by_cases hr : a.request = request
    case neg =>
      have hb : t.batch? (.supply request messages) = none := by simp [batch?, ha, hr]
      have hsame : t.awaited = t.awaitedAfter (.supply request messages) := by
        simp only [awaitedAfter, ha, Option.filter_some, bne_iff_ne.2 hr, if_true]
      simp only [supply, ha, if_neg hr]
      exact .of_turn hb rfl hsame (.refl { tracker := t })
    have hb : t.batch? (.supply request messages) = some ⟨a.room, messages, false, none⟩ :=
      hr ▸ batch?_supply ha messages
    have hl : t.loaded (.supply request messages) =
        { t with chronicle := (t.chronicle.ingest a.room messages false).1 } := loaded_eq hb
    have hp : t.placed (.supply request messages) =
        (t.chronicle.ingest a.room messages false).2 := placed_eq hb
    have hnone : none = t.awaitedAfter (.supply request messages) := by
      simp [awaitedAfter, ha, Option.filter_some, hr]
    simp only [supply, ha, if_pos hr]
    rw [← hp]
    -- The jump is refused, lands or finds nothing; the batch is taken care of in all three cases.
    split
    · refine .of_batch hnone ?_
      rw [hl]
      exact Turn.expects_finish _ a.room
    · split
      · refine .of_batch hnone ?_
        rw [hl]
        exact (Turn.expects_land _ a.room _).trans (Turn.expects_finish _ a.room)
      · refine .of_batch hnone ?_
        rw [hl]
        exact Turn.expects_finish _ a.room

theorem foresees_receipt (room : RoomId) (user : UserId) (event : EventId) (v : Visibility)
    (reach : Reach) : t.Foresees (.receipt room user event v reach)
      (t.receipt room user event v reach).tracker := by
  by_cases hu : user = t.reader
  case neg =>
    simp only [receipt, if_neg hu]
    exact .of_turn rfl rfl rfl (.refl { tracker := t })
  subst hu
  cases he : t.chronicle.get? event with
  | some e =>
    simp only [receipt, if_true, he]
    exact .of_turn rfl rfl rfl ((Turn.expects_applyReceipt { tracker := t } _ v reach).trans
      (Turn.expects_finish _ _))
  | none =>
    simp only [receipt, if_true, he]
    exact ⟨.hold room he v reach, (Turn.aside_hold { tracker := t } room event v reach).awaited⟩

theorem foresees_forget (room : RoomId) : t.Foresees (.forget room) (t.forget room).tracker := by
  simp only [forget]
  split
  next why h =>
    refine ⟨.settle fun _ => rfl, ?_⟩
    simp only [awaitedAfter, h]
    rfl
  next h =>
    refine ⟨.drop room, ?_⟩
    simp only [awaitedAfter, h]
    rfl

theorem foresees (c : Command) : t.Foresees c (t.handle c).tracker := by
  cases c with
  | markRoomRead room =>
    exact .of_turn rfl rfl rfl ((Turn.expects_readAll { tracker := t } (t.unreadEnds room)).trans
      (Turn.expects_finish _ room))
  | viewRoom room =>
    exact .of_turn rfl (r := { tracker := { t with
      awaited := none, focus := some ⟨room, none, true⟩ } }) rfl rfl
      ((Turn.expects_readToEnd _ (.ofRoom room)).trans (Turn.expects_finish _ room))
  | viewThread room root => exact t.foresees_viewThread room root
  | closeThread => exact .of_turn rfl rfl rfl (Turn.expects_release _)
  | leave => exact .of_turn rfl rfl rfl (Turn.expects_release _)
  | jump room event includeThreads => exact t.foresees_jump room event includeThreads
  | supply request messages => exact t.foresees_supply request messages
  | receive room messages limited =>
    exact .of_batch rfl ((Turn.expects_followLive _ room _ limited).trans
      (Turn.expects_finish _ room))
  | backfill room messages filled => exact .of_batch rfl (Turn.expects_finish _ room)
  | receipt room user event v reach => exact t.foresees_receipt room user event v reach
  | sendFailed => exact .of_turn rfl rfl rfl (.refl { tracker := t })
  | forget room => exact t.foresees_forget room
  | tick now =>
    show t.Foresees _ (t.tick now).tracker
    rw [t.tick_eq now]
    exact .of_turn (r := { tracker := t }) rfl rfl rfl ⟨rfl, rfl⟩

end Tracker

end ReadTracking
