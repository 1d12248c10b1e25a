import ReadTracking.Proofs.Intake
import ReadTracking.Proofs.Wishes

/-!
# What commands do

A command that forgets no room indexes the batch that it brings, grants wishes, among them those
of the messages that it indexed, and then reports on one room at most.  If the jump that it
completes is to a message of the room that was named, all its wishes are about the room on which
it reports.
-/

set_option autoImplicit false

namespace ReadTracking

/-! ## Wishes keep to their room -/

theorem Turn.scope_of_horizon {c : Chronicle} {s : Scope} {u : Update}
    (h : horizon c s = some u) : u.scope = s := by
  obtain ⟨_, -, rfl⟩ := Option.map_eq_some_iff.1 h
  rfl

theorem Wish.room_of_mem_ofReceipt {c : Chronicle} {u : Update} {v : Visibility} {reach : Reach}
    {w : Wish} (h : w ∈ ofReceipt c u v reach) : w.room = u.scope.room := by
  cases reach with
  | scope =>
    cases List.mem_singleton.1 h
    rfl
  | room =>
    obtain ⟨u', hu', rfl⟩ := List.mem_map.1 h
    obtain ⟨s, hs, hfloor⟩ := List.mem_filterMap.1 hu'
    obtain ⟨_, -, rfl⟩ := Option.map_eq_some_iff.1 hfloor
    exact Chronicle.room_of_mem_scopes hs

namespace Tracker

variable {σ : Type} {t : Tracker σ}

theorem room_of_mem_wishes {p : Placed} {w : Wish} (h : w ∈ t.wishes p) :
    w.room = p.scope.room := by
  rcases List.mem_append.1 h with h | h
  · obtain ⟨_, _, _, _, rfl⟩ := mem_ownWishes.1 h
    rfl
  · obtain ⟨_, _, _, _, h⟩ := mem_heldWishes.1 h
    exact Wish.room_of_mem_ofReceipt h

theorem room_of_mem_unreadEnds {room : RoomId} {u : Update} (h : u ∈ t.unreadEnds room) :
    u.scope.room = room := by
  obtain ⟨s, hs, hu⟩ := List.mem_filterMap.1 (List.mem_filter.1 h).1
  rw [Turn.scope_of_horizon hu]
  exact Chronicle.room_of_mem_scopes hs

def target? (t : Tracker σ) : Command → Option (RoomId × EventId)
  | .jump room event _ => some (room, event)
  | .supply request _ =>
    (t.awaited.filter fun a => a.request = request).map fun a => (a.room, a.event)
  | .markRoomRead _ | .viewRoom _ | .viewThread _ _ | .closeThread | .leave | .receive _ _ _
  | .backfill _ _ _ | .receipt _ _ _ _ _ | .sendFailed _ _ _ | .forget _ | .tick _ => none

def Straight (t : Tracker σ) (c : Command) : Prop :=
  ∀ room event e, t.target? c = some (room, event) →
    (t.loaded c).chronicle.get? event = some e → e.scope.room = room

end Tracker

/-! ## Answers grant wishes -/

section

variable {σ : Type}

def Answer.Ends (a : Answer σ) (r : Turn σ) : Prop := a = r.done ∨ ∃ why, a = r.refused why

inductive Answer.Reports (t : Tracker σ) (a : Answer σ) : Option RoomId → Prop where
  | nothing (reported : a.tracker.reported = t.reported) (notices : a.notices = []) :
    Reports t a none
  | known (room : RoomId) (same : t.reported.get? room = some (a.tracker.roomState room))
    (reported : a.tracker.reported = t.reported) (notices : a.notices = []) :
    Reports t a (some room)
  | news (room : RoomId) (changed : t.reported.get? room ≠ some (a.tracker.roomState room))
    (reported : a.tracker.reported = t.reported.insert room (a.tracker.roomState room))
    (notices : a.notices = t.listeners.notices (a.tracker.roomState room)) :
    Reports t a (some room)

structure Answer.Grants (t : Tracker σ) (ws : List Wish) (place : Option RoomId)
    (a : Answer σ) : Prop where
  policy : a.tracker.policy = t.policy
  reader : a.tracker.reader = t.reader
  chronicle : a.tracker.chronicle = t.chronicle
  listeners : a.tracker.listeners = t.listeners
  marks : a.tracker.book.marks = Wish.grantAll t.ambient.wallClock t.book.marks ws
  reports : a.Reports t place

theorem Answer.Grants.idle {t : Tracker σ} {a : Answer σ} (policy : a.tracker.policy = t.policy)
    (reader : a.tracker.reader = t.reader) (chronicle : a.tracker.chronicle = t.chronicle)
    (listeners : a.tracker.listeners = t.listeners)
    (marks : a.tracker.book.marks = t.book.marks)
    (reported : a.tracker.reported = t.reported) (notices : a.notices = []) :
    a.Grants t [] none :=
  ⟨policy, reader, chronicle, listeners, marks, .nothing reported notices⟩

namespace Turn

variable {t : Tracker σ} {ws : List Wish} {r : Turn σ}

theorem grants_look (t : Tracker σ) (focus : Option Focus) {awaited : Option Awaited}
    (h : ∀ a, awaited = some a → t.awaited = some a) :
    ({ tracker := t } : Turn σ).Grants [] { tracker := { t with focus, awaited } } :=
  ⟨rfl, rfl, rfl, rfl, rfl, rfl, h, rfl, rfl⟩

theorem grants_look_away (t : Tracker σ) (focus : Option Focus) :
    ({ tracker := t } : Turn σ).Grants [] { tracker := { t with focus, awaited := none } } := by
  refine grants_look t focus fun a ha => ?_
  cases ha

theorem Grants.answer (h : ({ tracker := t } : Turn σ).Grants ws r) (room : RoomId)
    {a : Answer σ} (ha : a.Ends (r.report room).release) : a.Grants t ws (some room) := by
  obtain ⟨reported, notices, hr⟩ := r.report_eq room
  have ht : a.tracker = (r.report room).release.tracker := by
    rcases ha with rfl | ⟨why, rfl⟩ <;> rfl
  have hn : a.notices = (r.report room).release.notices := by
    rcases ha with rfl | ⟨why, rfl⟩ <;> rfl
  have hstate : a.tracker.roomState room = r.tracker.roomState room := by
    rw [ht, hr]
    exact Tracker.roomState_congr rfl rfl room
  have hnotices : r.notices = [] := h.notices
  have hreported : r.tracker.reported = t.reported := h.reported
  have hlisteners : r.tracker.listeners = t.listeners := h.listeners
  have hreports : a.Reports t (some room) := by
    by_cases hs : r.tracker.reported.get? room = some (r.tracker.roomState room)
    · have hsame : r.report room = r := if_pos hs
      rw [hsame] at ht hn
      refine .known room ?_ ((congrArg Tracker.reported ht).trans hreported) (hn.trans hnotices)
      rw [hstate, ← hs, hreported]
    · have hnew : r.report room = { r with
          tracker := { r.tracker with
            reported := r.tracker.reported.insert room (r.tracker.roomState room) }
          notices := r.notices ++ r.tracker.listeners.notices (r.tracker.roomState room) } :=
        if_neg hs
      rw [hnew] at ht hn
      refine .news room ?_ ?_ ?_
      · rw [hstate, ← hreported]
        exact hs
      · rw [hstate, ← hreported]
        exact congrArg Tracker.reported ht
      · rw [hstate, hn, ← hlisteners]
        show r.notices ++ _ = _
        rw [hnotices, List.nil_append]
  rw [hr] at ht
  refine ⟨?_, ?_, ?_, ?_, ?_, hreports⟩
  · exact (congrArg Tracker.policy ht).trans h.policy
  · exact (congrArg Tracker.reader ht).trans h.reader
  · exact (congrArg Tracker.chronicle ht).trans h.chronicle
  · exact (congrArg Tracker.listeners ht).trans h.listeners
  · exact (congrArg (·.book.marks) ht).trans h.marks

theorem Grants.awaited_of_ends (h : ({ tracker := t } : Turn σ).Grants ws r) {room : RoomId}
    {a : Answer σ} (ha : a.Ends (r.report room).release) {x : Awaited}
    (hx : a.tracker.awaited = some x) : t.awaited = some x := by
  obtain ⟨reported, notices, hr⟩ := r.report_eq room
  rw [hr] at ha
  refine h.awaited x ?_
  rcases ha with rfl | ⟨why, rfl⟩ <;> exact hx

end Turn

end

/-! ## Commands -/

namespace Tracker

variable {σ : Type} [Backing σ] (t : Tracker σ)

structure Conduct (c : Command) (ws : List Wish) (place : Option RoomId) : Prop where
  grants : (t.handle c).Grants (t.loaded c) ws place
  arrival : (t.placed c).flatMap (t.loaded c).wishes ⊆ ws
  brought : ∀ b, t.batch? c = some b → place = some b.room
  near : t.chronicle.Sound → t.Straight c → ∀ w ∈ ws, place = some w.room
  awaited : ∀ a, (t.handle c).tracker.awaited = some a →
    t.awaited = some a ∨ t.target? c = some (a.room, a.event)

variable {t}

theorem Conduct.of_idle {c : Command} {a : Answer σ} (hb : t.batch? c = none)
    (ha : t.handle c = a) (h : a.Grants t [] none)
    (hx : ∀ x, a.tracker.awaited = some x →
      t.awaited = some x ∨ t.target? c = some (x.room, x.event)) : t.Conduct c [] none := by
  subst ha
  refine ⟨?_, ?_, fun b hb' => ?_, fun _ _ w hw => (nomatch hw), hx⟩
  · rw [loaded_eq_self hb]
    exact h
  · rw [placed_eq_nil hb]
    exact List.Subset.refl []
  · rw [hb] at hb'
    cases hb'

theorem Conduct.of_turn {c : Command} (room : RoomId) {ws : List Wish} {r : Turn σ}
    (hb : t.batch? c = none) (h : ({ tracker := t } : Turn σ).Grants ws r)
    (ha : (t.handle c).Ends (r.report room).release)
    (hws : t.Straight c → ∀ w ∈ ws, w.room = room) : t.Conduct c ws (some room) := by
  refine ⟨?_, ?_, fun b hb' => ?_, fun _ hs w hw => congrArg some (hws hs w hw).symm,
    fun x hx => .inl (h.awaited_of_ends ha hx)⟩
  · rw [loaded_eq_self hb]
    exact h.answer room ha
  · rw [placed_eq_nil hb]
    exact List.nil_subset ws
  · rw [hb] at hb'
    cases hb'

variable (t)

def Conducts (c : Command) : Prop := ∃ ws place, t.Conduct c ws place

theorem conducts_markRoomRead (room : RoomId) : t.Conducts (.markRoomRead room) := by
  refine ⟨_, _, .of_turn room rfl (Turn.grants_readAll { tracker := t } (t.unreadEnds room))
    (.inl rfl) ?_⟩
  intro _ w hw
  obtain ⟨u, hu, rfl⟩ := List.mem_map.1 hw
  exact room_of_mem_unreadEnds hu

theorem conducts_viewRoom (room : RoomId) : t.Conducts (.viewRoom room) := by
  let r₀ : Turn σ := { tracker := { t with awaited := none, focus := some ⟨room, none, true⟩ } }
  have hlook : ({ tracker := t } : Turn σ).Grants [] r₀ := Turn.grants_look_away t _
  obtain ⟨ws, hws, h⟩ := r₀.grants_readToEnd (.ofRoom room)
  refine ⟨_, _, .of_turn room rfl (hlook.trans h) (.inl rfl) fun _ w hw => ?_⟩
  exact congrArg Scope.room (hws w hw)

theorem conducts_viewThread (room : RoomId) (root : EventId) :
    t.Conducts (.viewThread room root) := by
  by_cases hk : (t.chronicle.rootKnown room root || t.chronicle.hasThread room root) = true
  case neg =>
    exact ⟨_, _, .of_idle rfl (if_neg hk) (.idle rfl rfl rfl rfl rfl rfl rfl)
      fun _ hx => .inl hx⟩
  let r₀ : Turn σ :=
    { tracker := { t with awaited := none, focus := some ⟨room, some root, true⟩ } }
  have hlook : ({ tracker := t } : Turn σ).Grants [] r₀ := Turn.grants_look_away t _
  obtain ⟨ws, hws, h⟩ := r₀.grants_readToEnd (.ofThread room root)
  have hroom : ∀ w ∈ ws, w.room = room := fun w hw => congrArg Scope.room (hws w hw)
  cases hr : t.chronicle.rootKnown room root with
  | false =>
    refine ⟨_, _, .of_turn room rfl (hlook.trans h) (.inl ?_) fun _ => hroom⟩
    simp only [hr] at hk
    simp only [handle, viewThread, hr, hk, if_true]
    rfl
  | true =>
    cases hp : t.chronicle.position? root with
    | none =>
      refine ⟨_, _, .of_turn room rfl (hlook.trans h) (.inl ?_) fun _ => hroom⟩
      simp only [handle, viewThread, hr, hp, Bool.true_or, if_true]
      rfl
    | some p =>
      obtain ⟨ws', hws', h'⟩ :=
        (r₀.readToEnd (.ofThread room root)).grants_read ⟨.ofRoom room, root, p.sequence⟩
      refine ⟨_, _, .of_turn room rfl ((hlook.trans h).trans h') (.inl ?_) fun _ w hw => ?_⟩
      · simp only [handle, viewThread, hr, hp, Bool.true_or, if_true]
        rfl
      · rcases List.mem_append.1 hw with hw | hw
        · exact hroom w hw
        · rw [hws' w hw]
          rfl

theorem conducts_jump (room : RoomId) (event : EventId) (includeThreads : Bool) :
    t.Conducts (.jump room event includeThreads) := by
  cases hb : Turn.barrier t.chronicle event includeThreads with
  | some root =>
    have hhandle : t.handle (.jump room event includeThreads) =
        ({ tracker := t } : Turn σ).refused (.inThread event root) := by
      simp only [handle, jump, hb]
    exact ⟨_, _, .of_idle rfl hhandle (.idle rfl rfl rfl rfl rfl rfl rfl) fun _ hx => .inl hx⟩
  | none =>
    cases he : t.chronicle.get? event with
    | some e =>
      let r₀ : Turn σ := { tracker := { t with awaited := none } }
      have hlook : ({ tracker := t } : Turn σ).Grants [] r₀ := Turn.grants_look_away t t.focus
      obtain ⟨ws, hws, h⟩ := r₀.grants_land room e
      refine ⟨_, _, .of_turn room rfl (hlook.trans h) (.inl ?_) fun hs w hw => ?_⟩
      · simp only [handle, jump, hb, he]
        rfl
      · exact (congrArg Scope.room (hws w hw)).trans (hs room event e rfl he)
    | none =>
      have hhandle : t.handle (.jump room event includeThreads) =
          (((({ tracker := { t with awaited := none } } : Turn σ).update fun t => { t with
            ambient := t.ambient.number.1
            awaited := some ⟨t.ambient.number.2, room, event, includeThreads⟩
            focus := some ⟨room, none, false⟩ }).ask
              (.fetch t.ambient.number.2 room event)).release).done := by
        simp only [handle, jump, hb, he]
        rfl
      refine ⟨_, _, .of_idle rfl hhandle (.idle rfl rfl rfl rfl rfl rfl rfl) fun x hx => ?_⟩
      cases hx
      exact .inr rfl

/-! ### Batches -/

variable {t}

theorem grants_arrival {c : Command} {b : Batch} (hb : t.batch? c = some b)
    {awaited : Option Awaited} (hx : ∀ a, awaited = some a → t.awaited = some a) :
    ({ tracker := t.loaded c } : Turn σ).Grants ((t.placed c).flatMap (t.loaded c).wishes)
      (({ tracker := { t.loaded c with awaited } } : Turn σ).afterPlacing (t.placed c)) := by
  have hl : (t.loaded c).awaited = t.awaited := by rw [loaded_eq hb]
  have hlook := Turn.grants_look (t.loaded c) (t.loaded c).focus fun a ha => hl ▸ hx a ha
  refine hlook.trans (Turn.grants_afterPlacing _ ?_ _ rfl rfl rfl fun _ _ => rfl)
  rw [placed_eq hb]
  exact Chronicle.nodup_take

omit [Backing σ] in
theorem room_of_mem_arrival {c : Command} {b : Batch} (hb : t.batch? c = some b)
    (hc : t.chronicle.Sound) {w : Wish} (hw : w ∈ (t.placed c).flatMap (t.loaded c).wishes) :
    w.room = b.room := by
  obtain ⟨p, hp, hw⟩ := List.mem_flatMap.1 hw
  rw [room_of_mem_wishes hw]
  rw [placed_eq hb] at hp
  exact hc.room_placed hp

/-- A command that brings a batch, takes care of its new messages, wishes more about the room of
the batch and reports on that room. -/
theorem Conduct.of_batch {c : Command} {b : Batch} {ws : List Wish} {r : Turn σ}
    (hb : t.batch? c = some b) {awaited : Option Awaited}
    (hx : ∀ a, awaited = some a → t.awaited = some a)
    (h : (({ tracker := { t.loaded c with awaited } } : Turn σ).afterPlacing
      (t.placed c)).Grants ws r)
    (ha : (t.handle c).Ends (r.report b.room).release)
    (hws : t.Straight c → ∀ w ∈ ws, w.room = b.room) :
    t.Conduct c ((t.placed c).flatMap (t.loaded c).wishes ++ ws) (some b.room) := by
  have hg := (grants_arrival hb hx).trans h
  refine ⟨hg.answer b.room ha, List.subset_append_left _ _, fun b' hb' => ?_,
    fun hc hs w hw => ?_, fun x hx => .inl ?_⟩
  · rw [hb] at hb'
    cases hb'
    rfl
  · rcases List.mem_append.1 hw with hw | hw
    · rw [room_of_mem_arrival hb hc hw]
    · rw [hws hs w hw]
  · have hl : (t.loaded c).awaited = t.awaited := by rw [loaded_eq hb]
    exact hl ▸ hg.awaited_of_ends ha hx

variable (t)

theorem conducts_receive (room : RoomId) (messages : List Message) (limited : Bool) :
    t.Conducts (.receive room messages limited) := by
  obtain ⟨ws, hws, h⟩ := Turn.grants_followLive (Turn.afterPlacing
      { tracker := t.loaded (.receive room messages limited) }
      (t.placed (.receive room messages limited)))
    room (t.placed (.receive room messages limited)) limited
  exact ⟨_, _, .of_batch rfl (fun _ hx => hx) h (.inl rfl) fun _ => hws⟩

theorem conducts_backfill (room : RoomId) (messages : List Message) (filled : Option Nat) :
    t.Conducts (.backfill room messages filled) :=
  ⟨_, _, .of_batch (b := ⟨room, messages, false, filled⟩) rfl (fun _ hx => hx) (.refl _)
    (.inl rfl) fun _ => List.forall_mem_nil _⟩

theorem conducts_supply (request : Nat) (messages : List Message) :
    t.Conducts (.supply request messages) := by
  cases ha : t.awaited with
  | none =>
    have hb : t.batch? (.supply request messages) = none := by simp [batch?, ha]
    have hhandle : t.handle (.supply request messages) = ({ tracker := t } : Turn σ).done := by
      simp only [handle, supply, ha]
    exact ⟨_, _, .of_idle hb hhandle (.idle rfl rfl rfl rfl rfl rfl rfl) fun _ hx => .inl hx⟩
  | some a =>
    by_cases hr : a.request = request
    case neg =>
      have hb : t.batch? (.supply request messages) = none := by simp [batch?, ha, hr]
      have hhandle : t.handle (.supply request messages) = ({ tracker := t } : Turn σ).done := by
        simp only [handle, supply, ha, if_neg hr]
      exact ⟨_, _, .of_idle hb hhandle (.idle rfl rfl rfl rfl rfl rfl rfl) fun _ hx => .inl hx⟩
    have hb : t.batch? (.supply request messages) = some ⟨a.room, messages, false, none⟩ :=
      hr ▸ batch?_supply ha messages
    have hl : t.loaded (.supply request messages) =
        { t with chronicle := (t.chronicle.ingest a.room messages false).1 } := loaded_eq hb
    have hp : t.placed (.supply request messages) =
        (t.chronicle.ingest a.room messages false).2 := placed_eq hb
    have hnone : ∀ x, (none : Option Awaited) = some x → t.awaited = some x := by
      intro x hx
      cases hx
    have hno : t.Straight (.supply request messages) → ∀ w ∈ ([] : List Wish), w.room = a.room :=
      fun _ => List.forall_mem_nil _
    cases hbar : Turn.barrier (t.chronicle.ingest a.room messages false).1 a.event
        a.includeThreads with
    | some root =>
      refine ⟨_, _, .of_batch hb hnone (.refl _) (.inr ⟨.inThread a.event root, ?_⟩) hno⟩
      simp only [handle, supply, ha, if_pos hr, hbar, hl, hp]
    | none =>
      cases he : (t.chronicle.ingest a.room messages false).1.get? a.event with
      | none =>
        refine ⟨_, _, .of_batch hb hnone (.refl _) (.inl ?_) hno⟩
        simp only [handle, supply, ha, if_pos hr, hbar, he, hl, hp]
      | some e =>
        obtain ⟨ws, hws, h⟩ := Turn.grants_land (Turn.afterPlacing
            { tracker := { t.loaded (.supply request messages) with awaited := none } }
            (t.placed (.supply request messages))) a.room e
        refine ⟨_, _, .of_batch hb hnone h (.inl ?_) fun hs w hw => ?_⟩
        · simp only [handle, supply, ha, if_pos hr, hbar, he, hl, hp]
        · have htarget : t.target? (.supply request messages) = some (a.room, a.event) := by
            simp only [target?, ha, Option.filter_some, hr, decide_true, if_true, Option.map_some]
          refine (congrArg Scope.room (hws w hw)).trans (hs a.room a.event e htarget ?_)
          rw [hl]
          exact he

/-! ### Receipts and the rest -/

theorem conducts_receipt (room : RoomId) (user : UserId) (event : EventId) (v : Visibility)
    (reach : Reach) : t.Conducts (.receipt room user event v reach) := by
  by_cases hu : user = t.reader
  case neg =>
    exact ⟨_, _, .of_idle rfl (if_neg hu) (.idle rfl rfl rfl rfl rfl rfl rfl)
      fun _ hx => .inl hx⟩
  cases he : t.chronicle.get? event with
  | some e =>
    refine ⟨_, _, .of_turn e.scope.room rfl (Turn.grants_applyReceipt { tracker := t }
      ⟨e.scope, event, e.position.sequence⟩ v reach) (.inl ?_) fun _ w hw => ?_⟩
    · simp only [handle, receipt, if_pos hu, he]
    · exact Wish.room_of_mem_ofReceipt hw
  | none =>
    let r : Turn σ := ({ tracker := t } : Turn σ).hold room event v reach
    have h : Turn.Aside { tracker := t } r := Turn.aside_hold _ room event v reach
    have hm : r.tracker.book = t.book := by
      simp only [r, Turn.hold, Turn.update]
      split
      · rfl
      · split <;> rfl
    have hhandle : t.handle (.receipt room user event v reach) = r.release.done := by
      simp only [handle, receipt, if_pos hu, he]
      rfl
    exact ⟨_, _, .of_idle rfl hhandle (.idle h.policy h.reader h.chronicle h.listeners
      (congrArg MarkerBook.marks hm) h.reported h.notices) fun _ hx => .inl (h.awaited ▸ hx)⟩

theorem conducts_tick (now : Nat) : t.Conducts (.tick now) :=
  ⟨_, _, .of_idle rfl (t.tick_eq now) (.idle rfl rfl rfl rfl (MarkerBook.marks_retried _) rfl rfl)
    fun _ hx => .inl hx⟩

/-- Every command that forgets no room is carried out in this way. -/
theorem conducts (c : Command) (hc : ∀ room, c ≠ .forget room) : t.Conducts c := by
  cases c with
  | markRoomRead room => exact t.conducts_markRoomRead room
  | viewRoom room => exact t.conducts_viewRoom room
  | viewThread room root => exact t.conducts_viewThread room root
  | closeThread =>
    exact ⟨_, _, .of_idle rfl rfl (.idle rfl rfl rfl rfl rfl rfl rfl) fun _ hx => .inl hx⟩
  | leave => exact ⟨_, _, .of_idle rfl rfl (.idle rfl rfl rfl rfl rfl rfl rfl) nofun⟩
  | jump room event includeThreads => exact t.conducts_jump room event includeThreads
  | supply request messages => exact t.conducts_supply request messages
  | receive room messages limited => exact t.conducts_receive room messages limited
  | backfill room messages filled => exact t.conducts_backfill room messages filled
  | receipt room user event v reach => exact t.conducts_receipt room user event v reach
  | sendFailed =>
    exact ⟨_, _, .of_idle rfl rfl (.idle rfl rfl rfl rfl rfl rfl rfl) fun _ hx => .inl hx⟩
  | forget room => exact absurd rfl (hc room)
  | tick now => exact t.conducts_tick now

/-! ### The chronicle stays sound -/

variable {t}

theorem forget_or_conducts (t : Tracker σ) (c : Command) :
    (∃ room, c = .forget room) ∨ t.Conducts c := by
  by_cases hc : ∃ room, c = .forget room
  · exact .inl hc
  · exact .inr (t.conducts c fun room e => hc ⟨room, e⟩)

theorem chronicle_forget (room : RoomId) :
    (t.forget room).tracker.chronicle = (t.chronicle.forget room).1 := by
  unfold forget
  split <;> rfl

theorem sound_meet (h : t.chronicle.Sound) (m : Moment) :
    (t.meet m).tracker.chronicle.Sound := by
  cases m with
  | surroundings | subscribe | unsubscribe => exact h
  | command c =>
    rcases t.forget_or_conducts c with ⟨room, rfl⟩ | ⟨ws, place, h'⟩
    · show (t.forget room).tracker.chronicle.Sound
      rw [chronicle_forget]
      exact h.forget room
    · exact h'.grants.chronicle ▸ sound_loaded h c

theorem sound_after (h : t.chronicle.Sound) (ms : List Moment) :
    (t.after ms).chronicle.Sound :=
  after_keeps (P := fun t => t.chronicle.Sound) h fun m _ _ ht => sound_meet ht m

/-- What every moment keeps while the chronicle is sound, a course keeps. -/
theorem after_keeps_of_sound {P : Tracker σ → Prop} {ms : List Moment} (hs : t.chronicle.Sound)
    (h : P t) (step : ∀ m ∈ ms, ∀ u, u.chronicle.Sound → P u → P (u.meet m).tracker) :
    P (t.after ms) := by
  have hboth : (t.after ms).chronicle.Sound ∧ P (t.after ms) :=
    after_keeps (P := fun u => u.chronicle.Sound ∧ P u) ⟨hs, h⟩
      fun m hm u hu => ⟨sound_meet hu.1 m, step m hm u hu.1 hu.2⟩
  exact hboth.2

/-! ### Batches while nobody looks -/

structure Settled (t : Tracker σ) (c : Command) (t' : Tracker σ) : Prop where
  policy : t'.policy = t.policy
  reader : t'.reader = t.reader
  focus : t'.focus = none
  chronicle : t'.chronicle = (t.loaded c).chronicle
  marks : t'.book.marks = Wish.grantAll t.ambient.wallClock t.book.marks
    ((t.placed c).flatMap (t.loaded c).wishes)
  held : ∀ id, t'.held.get? id =
    if id ∈ (t.placed c).map (·.id) then none else t.held.get? id

/-- Only who looks at the room reads more than the batch itself. -/
theorem tracker_handle_of_batch {c : Command} {b : Batch} (hb : c.batch? = some b)
    (hf : t.focus = none) : (t.handle c).tracker =
      (((({ tracker := t.loaded c } : Turn σ).afterPlacing (t.placed c)).report
        b.room).release).tracker := by
  cases c with
  | receive room messages limited =>
    cases hb
    have h := Turn.aside_afterPlacing
      { tracker := t.loaded (.receive room messages limited) }
      (t.placed (.receive room messages limited))
    have hfollow : ∀ r : Turn σ, r.tracker.focus = none →
        r.followLive room (t.placed (.receive room messages limited)) limited = r := by
      intro r hr
      simp only [Turn.followLive, hr]
    rw [← hfollow _ (h.focus.trans hf)]
    rfl
  | backfill room messages filled =>
    cases hb
    rfl
  | markRoomRead | viewRoom | viewThread | closeThread | leave | jump | supply | receipt
  | sendFailed | forget | tick => cases hb

theorem settled_handle {c : Command} {b : Batch} (hb : c.batch? = some b)
    (hf : t.focus = none) : t.Settled c (t.handle c).tracker := by
  have hb' : t.batch? c = some b := batch?_of_batch? hb
  have hl := loaded_eq hb'
  let r : Turn σ := ({ tracker := t.loaded c } : Turn σ).afterPlacing (t.placed c)
  have hg : ({ tracker := t.loaded c } : Turn σ).Grants _ r :=
    grants_arrival hb' fun _ hx => (congrArg Tracker.awaited hl).symm.trans hx
  have ha := Turn.aside_afterPlacing { tracker := t.loaded c } (t.placed c)
  obtain ⟨reported, notices, hr⟩ := r.report_eq b.room
  rw [tracker_handle_of_batch hb hf, hr]
  refine ⟨hg.policy.trans ?_, hg.reader.trans ?_, ha.focus.trans ?_, hg.chronicle,
    hg.marks.trans ?_, fun id => ?_⟩
  · rw [hl]
  · rw [hl]
  · rw [hl]
    exact hf
  · rw [hl]
  · refine (Turn.get?_held_afterPlacing _ _ id).trans ?_
    rw [hl]

end Tracker

end ReadTracking
