import Mathlib.Data.List.Forall2
import ReadTracking.Proofs.Capacity

/-!
# Trackers that differ only in their books

Two trackers over two storages are linked when they agree in everything but their books, and the
books are in a relation that every operation of a book keeps and that leaves the markers equal.
The operations may count on their updates keeping within limits that the messages kept.  Linked
trackers carry out every command alike: they stay linked, deliver the same notices, and ask for
the same actions but for the warnings about markers that could not be stored.
-/

set_option autoImplicit false

namespace ReadTracking

def Action.isWarning : Action → Bool
  | .unsaved _ _ _ => true
  | .send _ _ _ | .fetch _ _ _ => false

def Action.plain (actions : List Action) : List Action := actions.filter fun a => !a.isWarning

structure MarkerBook.Link {σ τ : Type} [Backing σ] [Backing τ] (K : Capacity)
    (R : MarkerBook σ → MarkerBook τ → Prop) : Prop where
  marks : ∀ {b b'}, R b b' → b'.marks = b.marks
  advance : ∀ {b b' u now}, R b b' → K.update u → now < Sum64.bound → ∀ v,
    R (b.advance u v now).1 (b'.advance u v now).1
  advanceAll : ∀ {b b' us now}, R b b' → (∀ u ∈ us, K.update u) → now < Sum64.bound → ∀ v,
    R (b.advanceAll us v now).1 (b'.advanceAll us v now).1
  retried : ∀ {b b'}, R b b' → R b.retried b'.retried
  forget : ∀ {b b'}, R b b' → ∀ {room n n'}, K.room room → (b.forget room).2 = .ok n →
    (b'.forget room).2 = .ok n' → R (b.forget room).1 (b'.forget room).1

theorem MarkerBook.link_of_kept {σ : Type} [Backing σ] {K : Capacity} {P : MarkerBook σ → Prop}
    (advance : ∀ {b u now}, P b → K.update u → now < Sum64.bound → ∀ v, P (b.advance u v now).1)
    (advanceAll : ∀ {b us now}, P b → (∀ u ∈ us, K.update u) → now < Sum64.bound → ∀ v,
      P (b.advanceAll us v now).1)
    (retried : ∀ {b}, P b → P b.retried)
    (forget : ∀ {b room n}, P b → K.room room → (b.forget room).2 = .ok n →
      P (b.forget room).1) :
    Link K fun b b' => b' = b ∧ P b where
  marks h := by rw [h.1]
  advance h hu hnow v := ⟨by rw [h.1], advance h.2 hu hnow v⟩
  advanceAll h hus hnow v := ⟨by rw [h.1], advanceAll h.2 hus hnow v⟩
  retried h := ⟨by rw [h.1], retried h.2⟩
  forget h _ _ _ hroom hf _ := ⟨by rw [h.1], forget h.2 hroom hf⟩

section

variable {σ τ : Type} (K : Capacity) (R : MarkerBook σ → MarkerBook τ → Prop)

structure Tracker.Linked (t : Tracker σ) (t' : Tracker τ) : Prop where
  ambient : t'.ambient = t.ambient
  policy : t'.policy = t.policy
  reader : t'.reader = t.reader
  chronicle : t'.chronicle = t.chronicle
  within : t.chronicle.Within K
  book : R t.book t'.book
  sends : t'.sends = t.sends
  listeners : t'.listeners = t.listeners
  reported : t'.reported = t.reported
  focus : t'.focus = t.focus
  awaited : t'.awaited = t.awaited
  held : t'.held = t.held

structure Turn.Linked (r : Turn σ) (r' : Turn τ) : Prop where
  tracker : r.tracker.Linked K R r'.tracker
  actions : Action.plain r'.actions = Action.plain r.actions
  notices : r'.notices = r.notices
  dated : r'.dated = r.dated

structure Answer.Linked (a : Answer σ) (a' : Answer τ) : Prop where
  tracker : a.tracker.Linked K R a'.tracker
  notices : a'.notices = a.notices
  reply : a'.reply.map Action.plain = a.reply.map Action.plain
  dated : a'.dated = a.dated

end

theorem Action.plain_append (l l' : List Action) :
    Action.plain (l ++ l') = Action.plain l ++ Action.plain l' := by
  simp [Action.plain]

theorem Turn.plain_warnings (v : Visibility) (us : List Update) (a : Advance) :
    Action.plain (Turn.warnings v us a) = [] := by
  cases a <;> simp [Turn.warnings, Action.plain, Action.isWarning]

namespace Tracker.Linked

variable {σ τ : Type} {K : Capacity} {R : MarkerBook σ → MarkerBook τ → Prop}
  {t : Tracker σ} {t' : Tracker τ}

theorem queued (h : t.Linked K R t') (us : List Update) : t'.queued us = t.queued us := by
  simp only [Tracker.queued, Tracker.sendVisibility, h.sends, h.policy, h.ambient]

end Tracker.Linked

namespace Turn.Linked

variable {σ τ : Type} [Backing σ] [Backing τ] {K : Capacity}
  {R : MarkerBook σ → MarkerBook τ → Prop} {r : Turn σ} {r' : Turn τ}

/-! ## Steps of a turn -/

omit [Backing σ] [Backing τ] in
theorem ask (h : r.Linked K R r') (a : Action) : (r.ask a).Linked K R (r'.ask a) := by
  refine ⟨h.tracker, ?_, h.notices, h.dated⟩
  simp only [Turn.ask, Action.plain_append, h.actions]

theorem read (L : MarkerBook.Link K R) (h : r.Linked K R r') {u : Update} (hu : K.update u) :
    (r.read u).Linked K R (r'.read u) := by
  have hc := MarkerBook.covers_congr (L.marks h.tracker.book) u.scope u.sequence
  by_cases hu' : r.tracker.book.covers u.scope u.sequence = true
  · rw [r.read_of_covers hu', r'.read_of_covers (hc ▸ hu')]
    exact h
  · rw [r.read_of_not_covers hu', r'.read_of_not_covers (hc ▸ hu')]
    refine ⟨{ h.tracker with book := ?_, sends := ?_ }, ?_, h.notices, rfl⟩
    · rw [h.tracker.ambient]
      exact L.advance h.tracker.book hu (Ambient.wallClock_lt _) _
    · exact h.tracker.queued [u]
    · simp only [Action.plain_append, plain_warnings, h.actions]

omit [Backing σ] [Backing τ] in
theorem moved_setAll {b : MarkerBook σ} {b' : MarkerBook τ} (hm : b'.marks = b.marks)
    (us : List Update) (v : Visibility) (now : Nat) :
    (b'.setAll v now us).2 = (b.setAll v now us).2 :=
  (MarkerBook.setAll_congr v now us hm).2

theorem readAll (L : MarkerBook.Link K R) (h : r.Linked K R r') {us : List Update}
    (hus : ∀ u ∈ us, K.update u) : (r.readAll us).Linked K R (r'.readAll us) := by
  rw [r.readAll_eq, r'.readAll_eq, h.tracker.ambient]
  refine ⟨{ h.tracker with book := ?_, sends := ?_ }, ?_, h.notices, rfl⟩
  · exact L.advanceAll h.tracker.book hus (Ambient.wallClock_lt _) _
  · have hm := moved_setAll (L.marks h.tracker.book) us .personal r.tracker.ambient.wallClock
    simp only [MarkerBook.moved_advanceAll, hm]
    exact h.tracker.queued _
  · simp only [Action.plain_append, plain_warnings, h.actions]

theorem readToEnd (L : MarkerBook.Link K R) (h : r.Linked K R r') (s : Scope) :
    (r.readToEnd s).Linked K R (r'.readToEnd s) := by
  unfold Turn.readToEnd
  rw [h.tracker.chronicle]
  split
  next u hu => exact h.read L (h.tracker.within.horizon hu)
  next => exact h

theorem readElsewhere (L : MarkerBook.Link K R) (h : r.Linked K R r') {u : Update}
    (hu : K.update u) (v : Visibility) :
    (r.readElsewhere u v).Linked K R (r'.readElsewhere u v) := by
  rw [r.readElsewhere_eq, r'.readElsewhere_eq, h.tracker.ambient]
  refine ⟨{ h.tracker with book := ?_ }, ?_, h.notices, rfl⟩
  · exact L.advance h.tracker.book hu (Ambient.wallClock_lt _) v
  · simp only [Action.plain_append, plain_warnings, h.actions]

theorem readRoomElsewhere (L : MarkerBook.Link K R) (h : r.Linked K R r') (room : RoomId)
    (sequence : Nat) (v : Visibility) :
    (r.readRoomElsewhere room sequence v).Linked K R (r'.readRoomElsewhere room sequence v) := by
  rw [r.readRoomElsewhere_eq, r'.readRoomElsewhere_eq, h.tracker.ambient, h.tracker.chronicle]
  refine ⟨{ h.tracker with book := ?_ }, ?_, h.notices, rfl⟩
  · exact L.advanceAll h.tracker.book (h.tracker.within.floors room sequence)
      (Ambient.wallClock_lt _) v
  · simp only [Action.plain_append, plain_warnings, h.actions]

theorem applyReceipt (L : MarkerBook.Link K R) (h : r.Linked K R r') {u : Update}
    (hu : K.update u) (v : Visibility) (reach : Reach) :
    (r.applyReceipt u v reach).Linked K R (r'.applyReceipt u v reach) := by
  cases reach with
  | scope => exact h.readElsewhere L hu v
  | room => exact h.readRoomElsewhere L u.scope.room u.sequence v

omit [Backing σ] [Backing τ] in
theorem hold (h : r.Linked K R r') (room : RoomId) (event : EventId) (v : Visibility)
    (reach : Reach) : (r.hold room event v reach).Linked K R (r'.hold room event v reach) := by
  refine ⟨?_, h.actions, h.notices, h.dated⟩
  simp only [Turn.hold, Turn.update, h.tracker.held]
  split
  · exact { h.tracker with held := rfl }
  · split
    · exact h.tracker
    · exact { h.tracker with held := rfl }

theorem readOwn (L : MarkerBook.Link K R) (h : r.Linked K R r') {p : Placed}
    (hp : K.update ⟨p.scope, p.id, p.position.sequence⟩) :
    (r.readOwn p).Linked K R (r'.readOwn p) := by
  simp only [Turn.readOwn, h.tracker.chronicle, h.tracker.reader, h.tracker.policy]
  split
  · exact h
  · split
    · exact h.readElsewhere L hp _
    · exact h

omit [Backing σ] [Backing τ] in
theorem foldl {α : Type} {f : Turn σ → α → Turn σ} {f' : Turn τ → α → Turn τ} {xs : List α}
    (step : ∀ {r r'}, Turn.Linked K R r r' → ∀ x ∈ xs, (f r x).Linked K R (f' r' x))
    (h : r.Linked K R r') : (xs.foldl f r).Linked K R (xs.foldl f' r') := by
  induction xs generalizing r r' with
  | nil => exact h
  | cons x xs ih =>
    exact ih (fun h x hx => step h x (List.mem_cons_of_mem _ hx)) (step h x List.mem_cons_self)

theorem releaseHeld (L : MarkerBook.Link K R) (h : r.Linked K R r') {p : Placed}
    (hp : K.update ⟨p.scope, p.id, p.position.sequence⟩) :
    (r.releaseHeld p).Linked K R (r'.releaseHeld p) := by
  simp only [Turn.releaseHeld, h.tracker.held]
  split
  · exact h
  · refine foldl (fun h w _ => h.applyReceipt L hp w.1 w.2) ?_
    exact ⟨{ h.tracker with held := by simp [Turn.update, h.tracker.held] }, h.actions,
      h.notices, h.dated⟩

theorem afterPlacing (L : MarkerBook.Link K R) (h : r.Linked K R r') {placed : List Placed}
    (hp : ∀ p ∈ placed, K.update ⟨p.scope, p.id, p.position.sequence⟩) :
    (r.afterPlacing placed).Linked K R (r'.afterPlacing placed) :=
  foldl (fun h p hm => (h.readOwn L (hp p hm)).releaseHeld L (hp p hm)) h

theorem followLive (L : MarkerBook.Link K R) (h : r.Linked K R r') (room : RoomId)
    (placed : List Placed) (limited : Bool) :
    (r.followLive room placed limited).Linked K R (r'.followLive room placed limited) := by
  have step : ∀ (c : Bool) (s : Scope) {r : Turn σ} {r' : Turn τ}, r.Linked K R r' →
      (if c then r.readToEnd s else r).Linked K R (if c then r'.readToEnd s else r') := by
    intro c s r r' h
    cases c with
    | false => exact h
    | true => exact h.readToEnd L s
  simp only [Turn.followLive, h.tracker.focus]
  split
  · exact h
  · split
    · split
      · exact step _ _ h
      · exact step _ _ (step _ _ h)
    · exact h

theorem land (L : MarkerBook.Link K R) (h : r.Linked K R r') (room : RoomId) {e : Indexed}
    (he : K.update ⟨e.scope, e.message.id, e.position.sequence⟩) :
    (r.land room e).Linked K R (r'.land room e) := by
  simp only [Turn.land, h.tracker.chronicle]
  refine Turn.Linked.read L ?_ he
  exact ⟨{ h.tracker with focus := rfl }, h.actions, h.notices, h.dated⟩

theorem report (L : MarkerBook.Link K R) (h : r.Linked K R r') (room : RoomId) :
    (r.report room).Linked K R (r'.report room) := by
  have hs := Tracker.roomState_congr h.tracker.chronicle (L.marks h.tracker.book) room
  simp only [Turn.report, h.tracker.reported, h.tracker.listeners, hs]
  split
  · exact h
  · exact ⟨{ h.tracker with reported := rfl, listeners := rfl }, h.actions,
      by simp [h.notices], h.dated⟩

omit [Backing σ] [Backing τ] in
theorem releaseAt (h : r.Linked K R r') (now : Nat) :
    (r.releaseAt now).Linked K R (r'.releaseAt now) := by
  simp only [Turn.releaseAt, h.tracker.sends]
  refine ⟨{ h.tracker with sends := rfl }, ?_, h.notices, h.dated⟩
  simp only [Action.plain_append, h.actions]

omit [Backing σ] [Backing τ] in
theorem release (h : r.Linked K R r') : r.release.Linked K R r'.release := by
  unfold Turn.release
  rw [h.tracker.ambient]
  exact h.releaseAt _

omit [Backing σ] [Backing τ] in
theorem done (h : r.Linked K R r') : r.done.Linked K R r'.done :=
  ⟨h.tracker, h.notices, by simp only [Turn.done, Except.map, h.actions], h.dated⟩

omit [Backing σ] [Backing τ] in
theorem refused (h : r.Linked K R r') (why : Refusal) :
    (r.refused why).Linked K R (r'.refused why) :=
  ⟨h.tracker, h.notices, rfl, h.dated⟩

end Turn.Linked

/-! ## Commands and moments -/

namespace Tracker.Linked

variable {σ τ : Type} [Backing σ] [Backing τ] {K : Capacity}
  {R : MarkerBook σ → MarkerBook τ → Prop} {t : Tracker σ} {t' : Tracker τ}

omit [Backing σ] [Backing τ] in
theorem turn (h : t.Linked K R t') :
    ({ tracker := t } : Turn σ).Linked K R { tracker := t' } := ⟨h, rfl, rfl, rfl⟩

theorem markRoomRead (L : MarkerBook.Link K R) (h : t.Linked K R t') (room : RoomId) :
    (t.markRoomRead room).Linked K R (t'.markRoomRead room) := by
  unfold Tracker.markRoomRead
  rw [Tracker.unreadEnds_congr h.chronicle (L.marks h.book)]
  refine (((h.turn.readAll L fun u hu => ?_).report L room).release).done
  simp only [Tracker.unreadEnds, List.mem_filter, List.mem_filterMap] at hu
  obtain ⟨⟨s, -, hs⟩, -⟩ := hu
  exact h.within.horizon hs

theorem viewRoom (L : MarkerBook.Link K R) (h : t.Linked K R t') (room : RoomId) :
    (t.viewRoom room).Linked K R (t'.viewRoom room) := by
  have ht : ({ t with awaited := none, focus := some ⟨room, none, true⟩ } : Tracker σ).Linked K R
      { t' with awaited := none, focus := some ⟨room, none, true⟩ } :=
    { h with awaited := rfl, focus := rfl }
  exact (((ht.turn.readToEnd L _).report L room).release).done

theorem viewThread (L : MarkerBook.Link K R) (h : t.Linked K R t') (room : RoomId)
    (root : EventId) : (t.viewThread room root).Linked K R (t'.viewThread room root) := by
  have ht : ({ t with awaited := none, focus := some ⟨room, some root, true⟩ } :
      Tracker σ).Linked K R { t' with
        chronicle := t.chronicle, awaited := none, focus := some ⟨room, some root, true⟩ } :=
    { h with chronicle := rfl, awaited := rfl, focus := rfl }
  have hr := ht.turn.readToEnd L (.ofThread room root)
  simp only [Tracker.viewThread, h.chronicle]
  split
  · split
    next p hk hp =>
      exact (((hr.read L (h.within.update_root hk hp)).report L room).release).done
    next => exact ((hr.report L room).release).done
  · exact h.turn.refused _

omit [Backing σ] [Backing τ] in
theorem closeThread (h : t.Linked K R t') : t.closeThread.Linked K R t'.closeThread := by
  simp only [Tracker.closeThread, h.focus]
  refine Turn.Linked.done (Turn.Linked.release (turn ?_))
  exact { h with focus := rfl }

omit [Backing σ] [Backing τ] in
theorem leave (h : t.Linked K R t') : t.leave.Linked K R t'.leave := by
  refine Turn.Linked.done (Turn.Linked.release (turn ?_))
  exact { h with awaited := rfl, focus := rfl }

theorem jump (L : MarkerBook.Link K R) (h : t.Linked K R t') (room : RoomId) (event : EventId)
    (includeThreads : Bool) :
    (t.jump room event includeThreads).Linked K R (t'.jump room event includeThreads) := by
  simp only [Tracker.jump, h.chronicle, h.ambient]
  split
  · exact h.turn.refused _
  · split
    next e he =>
      refine (((Turn.Linked.land L (turn ?_) room ?_).report L room).release).done
      · exact { h with ambient := rfl, chronicle := rfl, awaited := rfl }
      · exact h.within.update_message he
    next =>
      refine Turn.Linked.done (Turn.Linked.release (Turn.Linked.ask ?_ _))
      refine ⟨?_, rfl, rfl, rfl⟩
      exact { h with ambient := rfl, chronicle := rfl, awaited := rfl, focus := rfl }

theorem taking (L : MarkerBook.Link K R) (h : t.Linked K R t') {c : Chronicle} {room : RoomId}
    {messages : List Message} {limited : Bool} (hc : c.Within K)
    (hkeep : ∀ p, (t.chronicle.ingest room messages limited).1.Has p → c.Has p)
    {awaited awaited' : Option Awaited} (ha : awaited' = awaited) :
    (({ tracker := { t with chronicle := c, awaited } } : Turn σ).afterPlacing
      (t.chronicle.ingest room messages limited).2).Linked K R
    (({ tracker := { t' with chronicle := c, awaited := awaited' } } : Turn τ).afterPlacing
      (t.chronicle.ingest room messages limited).2) := by
  refine Turn.Linked.afterPlacing L (turn ?_) fun p hp => ?_
  · exact { h with chronicle := rfl, within := hc, awaited := ha }
  · exact hc.update_of_has (hkeep p (Chronicle.has_ingest p hp))

theorem supply (L : MarkerBook.Link K R) (h : t.Linked K R t') (request : Nat)
    {messages : List Message} (hm : ∀ m ∈ messages, m.Within K) :
    (t.supply request messages).Linked K R (t'.supply request messages) := by
  simp only [Tracker.supply, h.awaited, h.chronicle]
  split
  · exact h.turn.done
  · split
    next a _ _ =>
      have hc := h.within.ingest a.room hm false
      have hp := h.taking L hc (fun _ hp => hp) (rfl : (none : Option Awaited) = none)
      split
      · exact ((hp.report L _).release).refused _
      · split
        next e he => exact (((hp.land L _ (hc.update_message he)).report L _).release).done
        next => exact ((hp.report L _).release).done
    · exact h.turn.done

theorem receive (L : MarkerBook.Link K R) (h : t.Linked K R t') (room : RoomId)
    {messages : List Message} (hm : ∀ m ∈ messages, m.Within K) (limited : Bool) :
    (t.receive room messages limited).Linked K R (t'.receive room messages limited) := by
  have hp := h.taking L (h.within.ingest room hm limited) (fun _ hp => hp) h.awaited
  simp only [Tracker.receive, h.chronicle]
  exact (((hp.followLive L _ _ _).report L _).release).done

theorem backfill (L : MarkerBook.Link K R) (h : t.Linked K R t') (room : RoomId)
    {messages : List Message} (hm : ∀ m ∈ messages, m.Within K) (filled : Option Nat) :
    (t.backfill room messages filled).Linked K R (t'.backfill room messages filled) := by
  have hc := h.within.ingest room hm false
  simp only [Tracker.backfill, h.chronicle]
  refine Turn.Linked.done (Turn.Linked.release (Turn.Linked.report L ?_ room))
  cases filled with
  | none => exact h.taking L hc (fun _ hp => hp) h.awaited
  | some gap =>
    refine h.taking L (hc.closeGap room gap) (fun p hp => ?_) h.awaited
    obtain ⟨e, he, hs⟩ := hp
    exact ⟨e, (Chronicle.get?_closeGap _ _ _).trans he, hs⟩

theorem receipt (L : MarkerBook.Link K R) (h : t.Linked K R t') (room : RoomId) (user : UserId)
    (event : EventId) (v : Visibility) (reach : Reach) :
    (t.receipt room user event v reach).Linked K R (t'.receipt room user event v reach) := by
  simp only [Tracker.receipt, h.reader, h.chronicle]
  split
  · split
    next e he =>
      exact (((h.turn.applyReceipt L (h.within.update he) v reach).report L _).release).done
    next => exact ((h.turn.hold room event v reach).release).done
  · exact h.turn.done

theorem forget (L : MarkerBook.Link K R) (h : t.Linked K R t') {room : RoomId}
    (hroom : K.room room) (hs : ¬ (t.forget room).StorageFailed)
    (hs' : ¬ (t'.forget room).StorageFailed) :
    (t.forget room).Linked K R (t'.forget room) := by
  have hf : ∀ n n', (t.book.forget room).2 = .ok n → (t'.book.forget room).2 = .ok n' →
      R (t.book.forget room).1 (t'.book.forget room).1 := fun _ _ => L.forget h.book hroom
  simp only [Tracker.forget] at hs hs' ⊢
  split at hs
  next => exact absurd ⟨_, rfl⟩ hs
  next b n hb =>
    split at hs'
    next => exact absurd ⟨_, rfl⟩ hs'
    next b' n' hb' =>
      rw [hb, hb'] at hf
      simp only [h.chronicle, h.sends, h.reported, h.held, h.focus, h.awaited]
      refine Turn.Linked.done (turn ?_)
      exact { h with
        chronicle := rfl
        within := h.within.forget room
        book := hf n n' rfl rfl
        sends := rfl
        reported := rfl
        held := rfl
        focus := rfl
        awaited := rfl }

theorem tick (L : MarkerBook.Link K R) (h : t.Linked K R t') (now : Nat) :
    (t.tick now).Linked K R (t'.tick now) := by
  rw [t.tick_eq, t'.tick_eq]
  have hr := h.turn.releaseAt now
  refine Turn.Linked.done ⟨?_, hr.actions, hr.notices, hr.dated⟩
  exact { hr.tracker with book := L.retried hr.tracker.book }

theorem handle (L : MarkerBook.Link K R) (h : t.Linked K R t') {c : Command}
    (hm : ∀ m ∈ c.messages, m.Within K) (hr : ∀ room, c = .forget room → K.room room)
    (hs : ¬ (t.handle c).StorageFailed) (hs' : ¬ (t'.handle c).StorageFailed) :
    (t.handle c).Linked K R (t'.handle c) := by
  cases c with
  | markRoomRead room => exact h.markRoomRead L room
  | viewRoom room => exact h.viewRoom L room
  | viewThread room root => exact h.viewThread L room root
  | closeThread => exact h.closeThread
  | leave => exact h.leave
  | jump room event includeThreads => exact h.jump L room event includeThreads
  | supply request messages => exact h.supply L request hm
  | receive room messages limited => exact h.receive L room hm limited
  | backfill room messages filled => exact h.backfill L room hm filled
  | receipt room user event v reach => exact h.receipt L room user event v reach
  | sendFailed => exact h.turn.done
  | forget room => exact h.forget L (hr room rfl) hs hs'
  | tick now => exact h.tick L now

theorem meet (L : MarkerBook.Link K R) (h : t.Linked K R t') {m : Moment} (hm : m.Within K)
    (hr : m.ForgetsWithin K) (hs : ¬ (t.meet m).StorageFailed) (hs' : ¬ (t'.meet m).StorageFailed) :
    (t.meet m).Linked K R (t'.meet m) := by
  cases m with
  | surroundings ambient => exact ⟨{ h with ambient := rfl }, rfl, rfl, rfl⟩
  | subscribe =>
    refine ⟨{ h with listeners := ?_ }, rfl, rfl, rfl⟩
    simp only [Tracker.meet, Tracker.subscribe, h.listeners]
  | unsubscribe listener =>
    refine ⟨{ h with listeners := ?_ }, rfl, rfl, rfl⟩
    simp only [Tracker.meet, Tracker.unsubscribe, h.listeners]
  | command c => exact h.handle L hm (fun room e => hr room (congrArg _ e)) hs hs'

/-- Linked trackers go through a course alike, and are linked at its end. -/
theorem run (L : MarkerBook.Link K R) (h : t.Linked K R t') {ms : List Moment}
    (hms : ∀ m ∈ ms, m.Within K) (hrs : ∀ m ∈ ms, m.ForgetsWithin K)
    (hs : ∀ a ∈ t.answers ms, ¬ a.StorageFailed) (hs' : ∀ a ∈ t'.answers ms, ¬ a.StorageFailed) :
    List.Forall₂ (Answer.Linked K R) (t.answers ms) (t'.answers ms) ∧
      (t.after ms).Linked K R (t'.after ms) := by
  induction ms generalizing t t' with
  | nil => exact ⟨.nil, h⟩
  | cons m ms ih =>
    have hm := h.meet L (hms m List.mem_cons_self) (hrs m List.mem_cons_self)
      (hs _ List.mem_cons_self) (hs' _ List.mem_cons_self)
    obtain ⟨hanswers, hlast⟩ := ih hm.tracker (fun m hm => hms m (List.mem_cons_of_mem _ hm))
      (fun m hm => hrs m (List.mem_cons_of_mem _ hm))
      (fun a ha => hs a (List.mem_cons_of_mem _ ha))
      (fun a ha => hs' a (List.mem_cons_of_mem _ ha))
    exact ⟨.cons hm hanswers, hlast⟩

end Tracker.Linked

end ReadTracking
