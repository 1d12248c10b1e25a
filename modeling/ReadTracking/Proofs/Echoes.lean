import ReadTracking.Proofs.Delivery
import ReadTracking.Proofs.LiveEdge
import ReadTracking.Proofs.Progress

/-!
# What comes back of the receipts that were sent

The server hands every receipt of the reader back to the reader.  A receipt is sent for a message of
its scope, and the scope is read that far when it is sent.  So what comes back finds everything read
already, and changes nothing.  The one exception is the root of a thread that is viewed: its
receipt is sent for the main timeline, and if the root is itself a message of another thread, what
comes back reads that other thread up to the root.
-/

set_option autoImplicit false

namespace ReadTracking

/-! ## Messages that stand for a scope -/

def Action.isSend : Action → Bool
  | .send _ _ _ => true
  | .fetch _ _ _ | .unsaved _ _ _ => false

namespace Chronicle

variable {c c' : Chronicle} {V : RoomId → EventId → Prop} {s : Scope} {id : EventId} {q : Nat}

/-- A message stands for having read a scope up to a sequence: it is a message of the scope at or
below the sequence, or it was viewed as the root of a thread and the scope is the main timeline. -/
def StandsFor (c : Chronicle) (V : RoomId → EventId → Prop) (s : Scope) (id : EventId) (q : Nat) :
    Prop :=
  ∃ e, c.get? id = some e ∧ e.scope.room = s.room ∧ e.position.sequence ≤ q ∧
    (e.scope = s ∨ s.thread = none ∧ V s.room id)

theorem StandsFor.mono (h : c.StandsFor V s id q)
    (hc : ∀ {id e}, c.get? id = some e → c'.get? id = some e) : c'.StandsFor V s id q := by
  obtain ⟨e, he, hrest⟩ := h
  exact ⟨e, hc he, hrest⟩

theorem standsFor_of_get? {e : Indexed} (he : c.get? id = some e) :
    c.StandsFor V e.scope id e.position.sequence :=
  ⟨e, he, rfl, Nat.le_refl _, .inl rfl⟩

theorem Sound.standsFor_horizon (hc : c.Sound) {u : Update} (h : Turn.horizon c s = some u) :
    c.StandsFor V u.scope u.event u.sequence := by
  simp only [Turn.horizon, Option.map_eq_some_iff] at h
  obtain ⟨head, hlatest, rfl⟩ := h
  obtain ⟨he, hs, -⟩ := hc.latest_eq_some hlatest
  refine ⟨head, he, congrArg Scope.room hs, ?_, .inl hs⟩
  split
  · exact Nat.le_max_right _ _
  · exact Nat.le_refl _

theorem Sound.standsFor_root (hc : c.Sound) {room : RoomId} {p : Position}
    (hk : c.rootKnown room id = true) (hp : c.position? id = some p) (hv : V room id) :
    c.StandsFor V (.ofRoom room) id p.sequence := by
  simp only [position?, Option.map_eq_some_iff] at hp
  obtain ⟨e, he, rfl⟩ := hp
  simp only [rootKnown, he, beq_iff_eq] at hk
  exact ⟨e, he, (hc.housed he).trans hk, Nat.le_refl _, .inr ⟨rfl, hv⟩⟩

end Chronicle

/-! ## What waits to be sent stands for what was read -/

section

variable {σ : Type} {V : RoomId → EventId → Prop}

structure Tracker.Vouches (t : Tracker σ) (V : RoomId → EventId → Prop) (s : Scope) (id : EventId)
    (q : Nat) : Prop where
  stands : t.chronicle.StandsFor V s id q
  read : t.book.covers s q = true

def Tracker.Vouched (t : Tracker σ) (V : RoomId → EventId → Prop) : Prop :=
  ∀ slot w, t.sends.waiting? slot = some w → t.Vouches V slot.scope w.event w.sequence

/-- What holds of all that waited and of the receipts for updates holds of all that waits once
they are queued. -/
theorem Tracker.forall_waiting_queued {t : Tracker σ} {P : Slot → EventId → Nat → Prop}
    (h : ∀ slot w, t.sends.waiting? slot = some w → P slot w.event w.sequence)
    {us : List Update} (hus : ∀ u ∈ us, P ⟨u.scope, t.sendVisibility⟩ u.event u.sequence) :
    ∀ slot w, (t.queued us).waiting? slot = some w → P slot w.event w.sequence := by
  unfold queued
  generalize t.sends = sends at h
  induction us generalizing sends with
  | nil => exact h
  | cons u us ih =>
    refine ih (fun u' hu' => hus u' (List.mem_cons_of_mem _ hu')) _ ?_
    have hu := hus u List.mem_cons_self
    exact SendQueue.forall_waiting_queue (P := fun slot w => P slot w.event w.sequence) h hu
      fun _ _ => hu

structure Turn.Vouched (c : Chronicle) (V : RoomId → EventId → Prop) (r : Turn σ) : Prop where
  chronicle : r.tracker.chronicle = c
  waiting : r.tracker.Vouched V
  silent : ∀ a ∈ r.actions, a.isSend = false

namespace Turn

variable {c : Chronicle} {r r' : Turn σ}

theorem isSend_of_mem_warnings {v : Visibility} {us : List Update} {a : Advance} {x : Action}
    (h : x ∈ warnings v us a) : x.isSend = false := by
  have hw := isWarning_of_mem_warnings h
  cases x with
  | unsaved scope v why => rfl
  | send | fetch => cases hw

/-- A turn has sent nothing yet. -/
def Silent (r : Turn σ) : Prop := ∀ a ∈ r.actions, a.isSend = false

namespace Silent

theorem append (h : r.Silent) (v : Visibility) (us : List Update) (a : Advance) :
    ∀ x ∈ r.actions ++ warnings v us a, x.isSend = false := by
  intro x hx
  rcases List.mem_append.1 hx with hx | hx
  · exact h x hx
  · exact isSend_of_mem_warnings hx

variable [Backing σ]

theorem readElsewhere (h : r.Silent) (u : Update) (v : Visibility) :
    (r.readElsewhere u v).Silent := by
  rw [readElsewhere_eq]
  exact h.append _ _ _

theorem applyReceipt (h : r.Silent) (u : Update) (v : Visibility) (reach : Reach) :
    (r.applyReceipt u v reach).Silent := by
  cases reach with
  | scope => exact h.readElsewhere u v
  | room =>
    show (r.readRoomElsewhere u.scope.room u.sequence v).Silent
    rw [readRoomElsewhere_eq]
    exact h.append _ _ _

theorem readOwn (h : r.Silent) (p : Placed) : (r.readOwn p).Silent := by
  simp only [Turn.readOwn]
  split
  · exact h
  · split
    · exact h.readElsewhere _ _
    · exact h

theorem releaseHeld (h : r.Silent) (p : Placed) : (r.releaseHeld p).Silent := by
  simp only [Turn.releaseHeld]
  split
  · exact h
  · exact List.foldlRecOn _ _ h fun r hr w _ => hr.applyReceipt _ w.1 w.2

theorem afterPlacing (h : r.Silent) (placed : List Placed) : (r.afterPlacing placed).Silent :=
  List.foldlRecOn _ _ h fun _ hr p _ => (hr.readOwn p).releaseHeld p

end Silent

namespace Vouched

theorem aside (h : r.Vouched c V) (ha : r.Aside r') (hs : ∀ a ∈ r'.actions, a.isSend = false) :
    r'.Vouched c V := by
  refine ⟨ha.chronicle.trans h.chronicle, fun slot w hw => ?_, hs⟩
  rw [ha.sends] at hw
  obtain ⟨hstands, hread⟩ := h.waiting slot w hw
  exact ⟨ha.chronicle ▸ hstands, ha.covers _ _ hread⟩

theorem congr (h : r.Vouched c V) (hc : r'.tracker.chronicle = r.tracker.chronicle)
    (hb : r'.tracker.book = r.tracker.book) (hs : r'.tracker.sends = r.tracker.sends)
    (ha : r'.actions = r.actions) : r'.Vouched c V := by
  refine ⟨hc.trans h.chronicle, fun slot w hw => ?_, ha ▸ h.silent⟩
  obtain ⟨hstands, hread⟩ := h.waiting slot w (hs ▸ hw)
  exact ⟨hc ▸ hstands, hb ▸ hread⟩

theorem report (h : r.Vouched c V) (room : RoomId) : (r.report room).Vouched c V := by
  obtain ⟨reported, notices, hr⟩ := r.report_eq room
  rw [hr]
  exact h.congr rfl rfl rfl rfl

theorem ask (h : r.Vouched c V) {a : Action} (ha : a.isSend = false) :
    (r.ask a).Vouched c V := by
  refine ⟨h.chronicle, h.waiting, fun x hx => ?_⟩
  rcases List.mem_append.1 hx with hx | hx
  · exact h.silent x hx
  · exact List.mem_singleton.1 hx ▸ ha

variable [Backing σ]

/-! ### Reading on this device -/

theorem read (h : r.Vouched c V) {u : Update} (hu : c.StandsFor V u.scope u.event u.sequence) :
    (r.read u).Vouched c V := by
  by_cases hc : r.tracker.book.covers u.scope u.sequence = true
  · rw [r.read_of_covers hc]
    exact h
  rw [r.read_of_not_covers hc]
  refine ⟨h.chronicle, ?_, Silent.append h.silent _ _ _⟩
  refine Tracker.forall_waiting_queued (t := r.tracker) (fun slot w hw => ?_) fun u' hu' => ?_
  · obtain ⟨hstands, hread⟩ := h.waiting slot w hw
    exact ⟨hstands, (MarkerBook.covers_advance _ _ _ _ _ _).2 (.inl hread)⟩
  · rw [List.mem_singleton.1 hu']
    refine ⟨h.chronicle.symm ▸ hu, ?_⟩
    exact (MarkerBook.covers_advance _ _ _ _ _ _).2 (.inr ⟨rfl, Nat.le_refl _⟩)

theorem readAll (h : r.Vouched c V) {us : List Update}
    (hus : ∀ u ∈ us, c.StandsFor V u.scope u.event u.sequence) : (r.readAll us).Vouched c V := by
  rw [readAll_eq]
  refine ⟨h.chronicle, ?_, Silent.append h.silent _ _ _⟩
  refine Tracker.forall_waiting_queued (t := r.tracker) (fun slot w hw => ?_) fun u hu => ?_
  · obtain ⟨hstands, hread⟩ := h.waiting slot w hw
    exact ⟨hstands, (MarkerBook.covers_advanceAll _ _ _ _ _ _).2 (.inl hread)⟩
  · rw [MarkerBook.moved_advanceAll] at hu
    have hin : u ∈ us := (MarkerBook.sublist_setAll _ _ us _).subset hu
    refine ⟨h.chronicle.symm ▸ hus u hin, ?_⟩
    exact (MarkerBook.covers_advanceAll _ _ _ _ _ _).2 (.inr ⟨u, hin, rfl, Nat.le_refl _⟩)

theorem readToEnd (h : r.Vouched c V) (hc : c.Sound) (s : Scope) :
    (r.readToEnd s).Vouched c V := by
  unfold Turn.readToEnd
  split
  next u hu => exact h.read (hc.standsFor_horizon (h.chronicle ▸ hu))
  next => exact h

theorem followLive (h : r.Vouched c V) (hc : c.Sound) (room : RoomId) (placed : List Placed)
    (limited : Bool) : (r.followLive room placed limited).Vouched c V :=
  Turn.followLive_induction h (fun s _ _ h => h.readToEnd hc s) placed limited

theorem land (h : r.Vouched c V) (hc : c.Sound) (room : RoomId) {event : EventId} {e : Indexed}
    (he : c.get? event = some e) : (r.land room e).Vouched c V := by
  refine Vouched.read (r := r.update _) (h.congr rfl rfl rfl rfl) ?_
  exact Chronicle.standsFor_of_get? ((hc.named he).symm ▸ he)

/-! ### Receipts -/

theorem applyReceipt (h : r.Vouched c V) (u : Update) (v : Visibility) (reach : Reach) :
    (r.applyReceipt u v reach).Vouched c V :=
  h.aside (r.aside_applyReceipt u v reach) (Silent.applyReceipt h.silent u v reach)

theorem afterPlacing (h : r.Vouched c V) (placed : List Placed) :
    (r.afterPlacing placed).Vouched c V :=
  h.aside (r.aside_afterPlacing placed) (Silent.afterPlacing h.silent placed)

end Vouched

end Turn

structure Answer.Vouched (V : RoomId → EventId → Prop) (a : Answer σ) : Prop where
  waiting : a.tracker.Vouched V
  sent : ∀ slot event, a.Sends slot event → ∃ q, a.tracker.Vouches V slot.scope event q

theorem Answer.Vouched.congr {a a' : Answer σ} (h : a.Vouched V)
    (hc : a'.tracker.chronicle = a.tracker.chronicle)
    (hm : a'.tracker.book.marks = a.tracker.book.marks)
    (hs : a'.tracker.sends = a.tracker.sends) (ha : a'.actions = a.actions) : a'.Vouched V := by
  have hvouches : ∀ {s id q}, a.tracker.Vouches V s id q → a'.tracker.Vouches V s id q :=
    fun hv => ⟨hc ▸ hv.stands, (MarkerBook.covers_congr hm _ _).trans hv.read⟩
  refine ⟨fun slot w hw => hvouches (h.waiting slot w (hs ▸ hw)), fun slot event hsend => ?_⟩
  rw [Answer.Sends, ha] at hsend
  obtain ⟨q, hq⟩ := h.sent slot event hsend
  exact ⟨q, hvouches hq⟩

theorem Turn.Vouched.release {c : Chronicle} {r : Turn σ} (h : r.Vouched c V) (now : Nat) :
    (r.releaseAt now).tracker.Vouched V ∧
      ∀ (slot : Slot) (event : EventId),
        .send slot.scope event slot.visibility ∈ (r.releaseAt now).actions →
          ∃ q, (r.releaseAt now).tracker.Vouches V slot.scope event q := by
  refine ⟨fun slot w hw => ?_, fun slot event hsend => ?_⟩
  -- What waits on waited before the release.
  · have hw : (r.tracker.sends.release now).1.waiting? slot = some w := hw
    rw [SendQueue.waiting?_release, Option.filter_eq_some_iff] at hw
    obtain ⟨hstands, hread⟩ := h.waiting slot w hw.1
    exact ⟨hstands, hread⟩
  -- What is sent is due: the turn itself has sent nothing before its end.
  · rcases List.mem_append.1 hsend with hmem | hmem
    · cases h.silent _ hmem
    · obtain ⟨o, ho, heq⟩ := List.mem_map.1 hmem
      obtain ⟨w, hw, -, he⟩ := SendQueue.mem_release _ |>.1 ho
      obtain ⟨hstands, hread⟩ := h.waiting o.slot w hw
      injection heq with hscope hevent _
      rw [← hscope, ← hevent, he]
      exact ⟨_, hstands, hread⟩

theorem Turn.Vouched.done {c : Chronicle} {r : Turn σ} (h : r.Vouched c V) (now : Nat) :
    ((r.releaseAt now).done).Vouched V :=
  ⟨(h.release now).1, (h.release now).2⟩

theorem Turn.Vouched.refused {c : Chronicle} {r : Turn σ} (h : r.Vouched c V) (now : Nat)
    (why : Refusal) : ((r.releaseAt now).refused why).Vouched V :=
  ⟨(h.release now).1, fun _ _ hsend => (by cases hsend)⟩

/-! ## Every command vouches for what it sends -/

namespace Tracker

theorem Vouched.start {t : Tracker σ} (h : t.Vouched V) {c : Chronicle}
    (hc : ∀ {id e}, t.chronicle.get? id = some e → c.get? id = some e) (focus : Option Focus)
    (awaited : Option Awaited) :
    ({ tracker := { t with chronicle := c, focus, awaited } } : Turn σ).Vouched c V :=
  ⟨rfl, fun slot w hw => ⟨(h slot w hw).stands.mono hc, (h slot w hw).read⟩,
    fun a ha => (by cases ha)⟩

theorem Vouched.look {t : Tracker σ} (h : t.Vouched V) (focus : Option Focus)
    (awaited : Option Awaited) :
    ({ tracker := { t with focus, awaited } } : Turn σ).Vouched t.chronicle V :=
  h.start id focus awaited

theorem Vouched.idle {t : Tracker σ} (h : t.Vouched V) {a : Answer σ} (ht : a.tracker = t)
    (ha : a.actions = []) : a.Vouched V := by
  subst ht
  refine ⟨h, fun slot event hsend => ?_⟩
  rw [Answer.Sends, ha] at hsend
  cases hsend

variable [Backing σ] {t : Tracker σ}

theorem vouched_viewThread (h : t.Vouched V) (hc : t.chronicle.Sound) {room : RoomId}
    {root : EventId} (hv : V room root) : (t.viewThread room root).Vouched V := by
  by_cases hk : (t.chronicle.rootKnown room root || t.chronicle.hasThread room root) = true
  case neg =>
    rw [show t.viewThread room root = _ from if_neg hk]
    exact h.idle rfl rfl
  rw [show t.viewThread room root = _ from if_pos hk]
  have hthread := (h.look (some ⟨room, some root, true⟩) none).readToEnd hc (.ofThread room root)
  refine Turn.Vouched.done (c := t.chronicle) (.report ?_ room) _
  split
  · exact hthread.read (hc.standsFor_root ‹_› ‹_› hv)
  · exact hthread

theorem vouched_jump (h : t.Vouched V) (hc : t.chronicle.Sound) (room : RoomId) (event : EventId)
    (includeThreads : Bool) : (t.jump room event includeThreads).Vouched V := by
  simp only [jump]
  split
  · exact h.idle rfl rfl
  · split
    next e he =>
      exact Turn.Vouched.done ((Turn.Vouched.land (h.look t.focus none) hc room he).report room) _
    next =>
      have hwait := h.look (some ⟨room, none, false⟩)
        (some ⟨t.ambient.number.2, room, event, includeThreads⟩)
      refine Turn.Vouched.done (c := t.chronicle) (.ask ?_ ?_) _
      · exact hwait.congr rfl rfl rfl rfl
      · rfl

theorem vouched_supply (h : t.Vouched V) (hc : t.chronicle.Sound) (request : Nat)
    (messages : List Message) : (t.supply request messages).Vouched V := by
  simp only [supply]
  split
  · exact h.idle rfl rfl
  next a _ =>
    split
    case isFalse => exact h.idle rfl rfl
    let b : Batch := ⟨a.room, messages, false, none⟩
    have hload := h.start (fun he => Chronicle.get?_take_of_some (b := b) he) t.focus none
    have hplaced := hload.afterPlacing (t.chronicle.ingest a.room messages false).2
    split
    · exact (hplaced.report a.room).refused _ _
    · refine Turn.Vouched.done (c := (t.chronicle.ingest a.room messages false).1)
        (.report ?_ a.room) _
      split
      next e he => exact hplaced.land hc.take a.room he
      next => exact hplaced

theorem vouched_receipt (h : t.Vouched V) (room : RoomId) (user : UserId) (event : EventId)
    (v : Visibility) (reach : Reach) : (t.receipt room user event v reach).Vouched V := by
  simp only [receipt]
  have hstart := h.look t.focus t.awaited
  split
  · split
    · exact ((hstart.applyReceipt _ v reach).report _).done _
    · exact (hstart.aside (Turn.aside_hold _ _ _ _ _) hstart.silent).done _
  · exact h.idle rfl rfl

theorem vouched_handle (h : t.Vouched V) (hc : t.chronicle.Sound) {c : Command}
    (hf : ∀ room, c ≠ .forget room) (hv : ∀ room root, c = .viewThread room root → V room root) :
    (t.handle c).Vouched V := by
  cases c with
  | markRoomRead room =>
    refine Turn.Vouched.done (.report ((h.look t.focus t.awaited).readAll fun u hu => ?_) room) _
    obtain ⟨s, -, hs⟩ := List.mem_filterMap.1 (List.mem_filter.1 hu).1
    exact hc.standsFor_horizon hs
  | viewRoom room =>
    have hlook := h.look (some ⟨room, none, true⟩) none
    exact ((hlook.readToEnd hc (.ofRoom room)).report room).done _
  | viewThread room root => exact vouched_viewThread h hc (hv room root rfl)
  | closeThread => exact (h.look _ t.awaited).done _
  | leave => exact (h.look none none).done _
  | jump room event includeThreads => exact vouched_jump h hc room event includeThreads
  | supply request messages => exact vouched_supply h hc request messages
  | receive room messages limited =>
    let b : Batch := ⟨room, messages, limited, none⟩
    have hload := h.start (fun he => Chronicle.get?_take_of_some (b := b) he) t.focus t.awaited
    exact (((hload.afterPlacing _).followLive hc.take room _ limited).report room).done _
  | backfill room messages filled =>
    let b : Batch := ⟨room, messages, false, filled⟩
    have hload := h.start (fun he => Chronicle.get?_take_of_some (b := b) he) t.focus t.awaited
    exact ((hload.afterPlacing _).report room).done _
  | receipt room user event v reach => exact vouched_receipt h room user event v reach
  | sendFailed scope event reason => exact h.idle rfl rfl
  | forget room => exact absurd rfl (hf room)
  | tick now =>
    show (t.tick now).Vouched V
    rw [tick_eq]
    exact ((h.look t.focus t.awaited).done now).congr rfl t.book.marks_retried rfl rfl

theorem vouched_meet (h : t.Vouched V) (hc : t.chronicle.Sound) {m : Moment}
    (hf : ∀ room, m ≠ .command (.forget room))
    (hv : ∀ room root, m = .command (.viewThread room root) → V room root) :
    (t.meet m).Vouched V := by
  cases m with
  | command c =>
    exact vouched_handle h hc (fun room he => hf room (congrArg Moment.command he))
      fun room root he => hv room root (congrArg Moment.command he)
  | surroundings | subscribe | unsubscribe =>
    have hidle : (({ tracker := t } : Turn σ).done).Vouched V := h.idle rfl rfl
    exact hidle.congr rfl rfl rfl rfl

/-! ## Courses -/

theorem get?_meet_of_some (hc : t.chronicle.Sound) {m : Moment}
    (hf : ∀ room, m ≠ .command (.forget room)) {id : EventId} {e : Indexed}
    (he : t.chronicle.get? id = some e) : (t.meet m).tracker.chronicle.get? id = some e := by
  cases m with
  | command c =>
    exact get?_handle_of_some hc (fun heq => hf _ (congrArg Moment.command heq)) he
  | surroundings | subscribe | unsubscribe => exact he

theorem Vouches.after {s : Scope} {id : EventId} {q : Nat} (h : t.Vouches V s id q)
    (hc : t.chronicle.Sound) {ms : List Moment} (hf : ∀ room, .command (.forget room) ∉ ms) :
    (t.after ms).Vouches V s id q := by
  refine after_keeps_of_sound (P := fun u => u.Vouches V s id q) hc h fun m hm u hu hvouches => ?_
  have hm : ∀ room, m ≠ .command (.forget room) := fun room he => hf room (he ▸ hm)
  exact ⟨hvouches.stands.mono (get?_meet_of_some hu hm), (onward_meet hm).covers hvouches.read⟩

/-- After a course everything that was sent is vouched for. -/
theorem vouches_of_sends (h : t.Vouched V) (hc : t.chronicle.Sound) {ms : List Moment}
    (hf : ∀ room, .command (.forget room) ∉ ms)
    (hv : ∀ room root, .command (.viewThread room root) ∈ ms → V room root) {a : Answer σ}
    (ha : a ∈ t.answers ms) {slot : Slot} {event : EventId} (hs : a.Sends slot event) :
    ∃ q, (t.after ms).Vouches V slot.scope event q := by
  induction ms generalizing t with
  | nil => cases ha
  | cons m ms ih =>
    have hnow := vouched_meet h hc (fun room he => hf room (he ▸ List.mem_cons_self))
      fun room root he => hv room root (he ▸ List.mem_cons_self)
    have hf' : ∀ room, .command (.forget room) ∉ ms :=
      fun room hm => hf room (List.mem_cons_of_mem _ hm)
    have hsound := sound_meet hc m
    rcases List.mem_cons.1 ha with rfl | ha
    -- Sent by the first answer: vouched for there, and so after the rest of the course.
    · obtain ⟨q, hq⟩ := hnow.sent slot event hs
      exact ⟨q, hq.after hsound hf'⟩
    · exact ih hnow.waiting hsound hf'
        (fun room root hm => hv room root (List.mem_cons_of_mem _ hm)) ha

/-! ## What an echo does -/

def echo (t : Tracker σ) (room : RoomId) (event : EventId) (v : Visibility) : Tracker σ :=
  (t.handle (.receipt room t.reader event v .scope)).tracker

theorem chronicle_echo (t : Tracker σ) (room : RoomId) (event : EventId) (v : Visibility) :
    (t.echo room event v).chronicle = t.chronicle := by
  obtain ⟨ws, place, hconduct⟩ := t.conducts (.receipt room t.reader event v .scope)
    fun _ he => (by cases he)
  exact hconduct.grants.chronicle

theorem covers_echo {event : EventId} {e : Indexed} (he : t.chronicle.get? event = some e)
    (room : RoomId) (v : Visibility) (s : Scope) (q : Nat) :
    (t.echo room event v).book.covers s q = true ↔
      t.book.covers s q = true ∨ s = e.scope ∧ q ≤ e.position.sequence := by
  have hbook : (t.echo room event v).book = (t.book.advance ⟨e.scope, event, e.position.sequence⟩ v
      t.ambient.wallClock).1 := by
    obtain ⟨reported, notices, hr⟩ := (({ tracker := t } : Turn σ).readElsewhere
      ⟨e.scope, event, e.position.sequence⟩ v).report_eq e.scope.room
    simp only [echo, handle, receipt, if_true, he, Turn.applyReceipt]
    rw [hr, Turn.readElsewhere_eq]
    rfl
  rw [hbook]
  exact MarkerBook.covers_advance _ _ _ _ _ _

/-- In a course that forgets no room, take a receipt that was sent at any time, and let it come back
at the end.  Its message is indexed in the room of the receipt.  If it is indexed for the scope of
the receipt, then what comes back changes neither how far any scope is read nor the state of any
room.  Otherwise the receipt was sent for the main timeline when the thread was viewed of which its
message is the root, and what comes back reads the scope of that message up to it and no other
scope any further. -/
theorem echoes_find_everything_read {ambient : Ambient} {policy : Policy} {reader : UserId} {s : σ}
    {t : Tracker σ} (ht : (openOver ambient policy reader s).1 = .ok t) {ms : List Moment}
    (hf : ∀ room, .command (.forget room) ∉ ms) {a : Answer σ} (ha : a ∈ t.answers ms)
    {slot : Slot} {event : EventId} (hs : a.Sends slot event) :
    let u := t.after ms
    let u' := u.echo slot.scope.room event slot.visibility
    ∃ e, u.chronicle.get? event = some e ∧ e.scope.room = slot.scope.room ∧
      (e.scope = slot.scope → (∀ s, u'.book.readTo s = u.book.readTo s) ∧
        ∀ room, u'.roomState room = u.roomState room) ∧
      (e.scope ≠ slot.scope → slot.scope.thread = none ∧
        .command (.viewThread slot.scope.room event) ∈ ms ∧
        ∀ s q, u'.book.covers s q = true ↔
          u.book.covers s q = true ∨ s = e.scope ∧ q ≤ e.message.sequence) := by
  intro u u'
  obtain ⟨book, rfl, -⟩ := eq_fresh_of_openOver ht
  have hvouched : (fresh ambient policy reader book).Vouched fun room root =>
      .command (.viewThread room root) ∈ ms := fun slot w hw => (by cases hw)
  have hsound : (fresh ambient policy reader book).chronicle.Sound := Chronicle.sound_empty _
  obtain ⟨q, hstands, hread⟩ := vouches_of_sends hvouched hsound hf (fun _ _ h => h) ha hs
  obtain ⟨e, he, hroom, hle, hscope⟩ := hstands
  refine ⟨e, he, hroom, fun hsame => ?_, fun hother => ?_⟩
  -- The scope was read up to `q` when the receipt was sent, and the message is not after `q`.
  · have hcovers : ∀ s q, u'.book.covers s q = true ↔ u.book.covers s q = true := by
      intro s q'
      rw [covers_echo he]
      refine or_iff_left_of_imp ?_
      rintro ⟨rfl, hq'⟩
      rw [hsame]
      exact MarkerBook.covers_of_le (Nat.le_trans hq' hle) hread
    have hreadTo : ∀ s, u'.book.readTo s = u.book.readTo s :=
      fun s => MarkerBook.readTo_eq_of_covers (hcovers s)
    exact ⟨hreadTo, roomState_of_readTo (chronicle_echo _ _ _ _) hreadTo⟩
  · obtain ⟨hmain, hviewed⟩ := hscope.resolve_left hother
    refine ⟨hmain, hviewed, fun s q' => ?_⟩
    rw [← (sound_after hsound ms).numbered he]
    exact covers_echo he _ _ s q'

/-- A thread is viewed whose newest answer came after a skipped stretch, and the receipt for its
root comes back. -/
theorem echoes_find_everything_read_of_a_thread :
    let room : RoomId := ⟨"!r"⟩
    let said (id : String) (q : Nat) (content : Content) : Message :=
      ⟨⟨id⟩, room, ⟨"@bot"⟩, q, content, false⟩
    let t : Tracker Shelf := fresh .counting {} ⟨"@me"⟩ ⟨.empty, .empty, .empty⟩
    let u := t.after [
      .command (.receive room [said "$1" 1 .plain, said "$2" 2 (.threadReply ⟨"$1"⟩)] false),
      .command (.receive room [said "$9" 9 (.threadReply ⟨"$1"⟩)] true),
      .command (.viewThread room ⟨"$1"⟩)]
    let u' := u.echo room ⟨"$1"⟩ .shared
    (∀ s, u'.book.readTo s = u.book.readTo s) ∧ ∀ room, u'.roomState room = u.roomState room := by
  intro room said t u u'
  have ht : (openOver .counting {} ⟨"@me"⟩ Shelf.empty).1 = .ok t := rfl
  let past : List Moment := [
    .command (.receive room [said "$1" 1 .plain, said "$2" 2 (.threadReply ⟨"$1"⟩)] false),
    .command (.receive room [said "$9" 9 (.threadReply ⟨"$1"⟩)] true)]
  let look := (t.after past).handle (.viewThread room ⟨"$1"⟩)
  have ha : look ∈ t.answers (past ++ [.command (.viewThread room ⟨"$1"⟩)]) :=
    .tail _ (.tail _ (.head _))
  have hs : look.Sends ⟨.ofRoom room, .shared⟩ ⟨"$1"⟩ := by decide +kernel
  obtain ⟨e, he, -, hown, -⟩ := echoes_find_everything_read ht (by simp [past]) ha hs
  have hplace : (u.chronicle.get? ⟨"$1"⟩).map (·.scope) = some (.ofRoom room) := by decide +kernel
  refine hown ?_
  rw [show u.chronicle.get? ⟨"$1"⟩ = some e from he] at hplace
  exact Option.some.inj hplace

/-- A thread is viewed whose root is an answer in another thread.  The receipt for the root is sent
for the main timeline, and when it comes back, the other thread is read. -/
theorem echo_of_a_nested_root_reads :
    let room : RoomId := ⟨"!r"⟩
    let said (id : String) (q : Nat) (content : Content) : Message :=
      ⟨⟨id⟩, room, ⟨"@bot"⟩, q, content, false⟩
    let t : Tracker Shelf := fresh .counting {} ⟨"@me"⟩ ⟨.empty, .empty, .empty⟩
    let look := (t.after [.command (.receive room [said "$1" 1 .plain,
      said "$2" 2 (.threadReply ⟨"$1"⟩), said "$3" 3 (.threadReply ⟨"$2"⟩)] false)]).handle
        (.viewThread room ⟨"$2"⟩)
    let u := look.tracker
    let u' := u.echo room ⟨"$2"⟩ .shared
    look.Sends ⟨.ofRoom room, .shared⟩ ⟨"$2"⟩ ∧
      u.book.readTo (.ofThread room ⟨"$1"⟩) = none ∧
      u'.book.readTo (.ofThread room ⟨"$1"⟩) = some 2 ∧
      (u.threadState room ⟨"$1"⟩).map (·.unread) = some 1 ∧
      (u'.threadState room ⟨"$1"⟩).map (·.unread) = some 0 ∧
      u'.roomState room ≠ u.roomState room := by
  decide +kernel

end Tracker

end

end ReadTracking
