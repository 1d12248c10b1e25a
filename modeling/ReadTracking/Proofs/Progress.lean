import ReadTracking.Proofs.Linked
import ReadTracking.Proofs.Reading

/-!
# What a turn reads, and that it says so at once

Without a debounce nothing waits between two operations.  Then what an operation reads is all
there is to say of it: the scopes are covered as they were, and up to the updates that were read
on this device or elsewhere.  Every update that was read on this device and was news is sent in
the same answer.
-/

set_option autoImplicit false

namespace ReadTracking

def Update.Read (us : List Update) (s : Scope) (q : Nat) : Prop :=
  ∃ u ∈ us, s = u.scope ∧ q ≤ u.sequence

theorem Update.read_append {us us' : List Update} {s : Scope} {q : Nat} :
    Update.Read (us ++ us') s q ↔ Update.Read us s q ∨ Update.Read us' s q := by
  simp only [Update.Read, List.mem_append, or_and_right, exists_or]

theorem Update.read_singleton {u : Update} {s : Scope} {q : Nat} :
    Update.Read [u] s q ↔ s = u.scope ∧ q ≤ u.sequence := by
  simp only [Update.Read, List.mem_singleton, exists_eq_left]

theorem Update.read_congr {us us' : List Update} {s : Scope} {q : Nat}
    (h : ∀ u, u ∈ us ↔ u ∈ us') : Update.Read us s q ↔ Update.Read us' s q := by
  simp only [Update.Read, h]

theorem Update.not_read_nil {s : Scope} {q : Nat} : ¬ Update.Read [] s q := by
  rintro ⟨u, hu, -⟩
  cases hu

/-- What was asked for and did not move was read already, or by what moved. -/
theorem MarkerBook.read_setAll {σ : Type} (v : Visibility) (now : Nat) {us : List Update}
    {b : MarkerBook σ} {s : Scope} {q : Nat} (h : Update.Read us s q) :
    b.covers s q = true ∨ Update.Read (b.setAll v now us).2 s q := by
  induction us generalizing b with
  | nil => exact absurd h Update.not_read_nil
  | cons u us ih =>
    have hsplit : (s = u.scope ∧ q ≤ u.sequence) ∨ Update.Read us s q := by
      obtain ⟨u', hu', hr⟩ := h
      rcases List.mem_cons.1 hu' with rfl | hu'
      · exact .inl hr
      · exact .inr ⟨u', hu', hr⟩
    cases hs : b.isStale v u with
    | true =>
      simp only [setAll, hs, if_true]
      rcases hsplit with ⟨rfl, hq⟩ | hus
      · obtain ⟨m, hm, hle⟩ := isStale_iff.1 hs
        exact .inl (covers_iff.2 ⟨v, m, hm, Nat.le_trans hq hle⟩)
      · exact ih hus
    | false =>
      simp only [setAll, hs, Bool.false_eq_true, if_false]
      rcases hsplit with hu | hus
      · exact .inr ⟨u, List.mem_cons_self, hu⟩
      · rcases ih (b := b.setMark v now u) hus with hc | ⟨u', hu', hr⟩
        · rcases (covers_setMark hs now s q).1 hc with hc | hc
          · exact .inl hc
          · exact .inr ⟨u, List.mem_cons_self, hc⟩
        · exact .inr ⟨u', List.mem_cons_of_mem _ hu', hr⟩

namespace SendQueue

variable {s : SendQueue} {slot : Slot} {event : EventId} {sequence now : Nat}

theorem forall_waiting_queue {P : Slot → Queued → Prop}
    (h : ∀ slot w, s.waiting? slot = some w → P slot w)
    (hnew : P slot ⟨event, sequence, now⟩)
    (hjoined : ∀ w, s.waiting? slot = some w → P slot ⟨event, sequence, w.since⟩) :
    ∀ slot' w, (s.queue slot event sequence now).waiting? slot' = some w → P slot' w := by
  intro slot' w hw
  rw [waiting?_queue] at hw
  split at hw
  next e =>
    subst e
    cases ho : s.waiting? slot' with
    | none =>
      rw [ho] at hw
      cases hw
      exact hnew
    | some w₀ =>
      rw [ho] at hw
      cases hw
      show P slot' (joined w₀ event sequence)
      unfold joined
      split
      next => exact hjoined w₀ ho
      next => exact h slot' w₀ ho
  next => exact h slot' w hw

theorem waiting_queue_self (s : SendQueue) (slot : Slot) (event : EventId)
    (sequence now : Nat) :
    ∃ w, (s.queue slot event sequence now).waiting? slot = some w ∧ sequence ≤ w.sequence := by
  rw [waiting?_queue, if_pos rfl]
  refine ⟨_, rfl, ?_⟩
  split
  next q _ =>
    unfold joined
    split
    · exact Nat.le_refl _
    · omega
  next => exact Nat.le_refl _

theorem waiting_queue_of_waiting {slot' : Slot} {w : Queued} (h : s.waiting? slot' = some w) :
    ∃ w', (s.queue slot event sequence now).waiting? slot' = some w' ∧
      w.sequence ≤ w'.sequence := by
  rw [waiting?_queue]
  split
  next e =>
    subst e
    refine ⟨_, rfl, ?_⟩
    rw [h]
    show w.sequence ≤ (joined w event sequence).sequence
    unfold joined
    split
    next hlt => exact Nat.le_of_lt hlt
    next => exact Nat.le_refl _
  next => exact ⟨w, h, Nat.le_refl _⟩

end SendQueue

/-! ## Turns -/

structure Tracker.Prompt {σ : Type} (t : Tracker σ) : Prop where
  shared : t.policy.sendShared = true
  debounce : t.sends.debounce = 0
  waiting : ∀ slot, t.sends.waiting? slot = none

theorem Tracker.Prompt.look {σ : Type} {t : Tracker σ} (h : t.Prompt) (focus : Option Focus)
    (awaited : Option Awaited) : ({ t with focus, awaited } : Tracker σ).Prompt :=
  ⟨h.shared, h.debounce, h.waiting⟩

structure Tracker.SameView {σ : Type} (t t' : Tracker σ) : Prop where
  ambient : t'.ambient = t.ambient
  policy : t'.policy = t.policy
  reader : t'.reader = t.reader
  chronicle : t'.chronicle = t.chronicle
  focus : t'.focus = t.focus
  awaited : t'.awaited = t.awaited
  held : t'.held = t.held

structure Turn.Reads {σ : Type} (t : Tracker σ) (here there : List Update) (r : Turn σ) :
    Prop where
  view : t.SameView r.tracker
  debounce : r.tracker.sends.debounce = 0
  covers : ∀ s q, r.tracker.book.covers s q = true ↔
    t.book.covers s q = true ∨ Update.Read here s q ∨ Update.Read there s q
  waiting : ∀ slot w, r.tracker.sends.waiting? slot = some w →
    w.since ≤ t.ambient.elapsed ∧ slot.visibility = .shared ∧
      ⟨slot.scope, w.event, w.sequence⟩ ∈ here
  queued : ∀ s q, Update.Read here s q → t.book.covers s q = true ∨ Update.Read there s q ∨
    ∃ w, r.tracker.sends.waiting? ⟨s, .shared⟩ = some w ∧ q ≤ w.sequence
  actions : ∀ a ∈ r.actions, a.isWarning = true

namespace Turn

theorem isWarning_of_mem_warnings {v : Visibility} {us : List Update} {a : Advance}
    {x : Action} (h : x ∈ warnings v us a) : x.isWarning = true := by
  cases a with
  | ignored => cases h
  | applied => cases h
  | unsaved why =>
    obtain ⟨u, -, rfl⟩ := List.mem_map.1 h
    rfl

namespace Reads

variable {σ : Type} {t : Tracker σ} {here there : List Update} {r : Turn σ}

theorem refl (ht : t.Prompt) : ({ tracker := t } : Turn σ).Reads t [] [] where
  view := ⟨rfl, rfl, rfl, rfl, rfl, rfl, rfl⟩
  debounce := ht.debounce
  covers s q := by
    constructor
    · exact .inl
    · rintro (h | h | h)
      · exact h
      · exact absurd h Update.not_read_nil
      · exact absurd h Update.not_read_nil
  waiting slot w hw := by
    rw [ht.waiting] at hw
    cases hw
  queued s q h := absurd h Update.not_read_nil
  actions a ha := by cases ha

theorem actions_append (h : r.Reads t here there) {v : Visibility} {us : List Update}
    {a : Advance} : ∀ x ∈ r.actions ++ warnings v us a, x.isWarning = true := by
  intro x hx
  rcases List.mem_append.1 hx with hx | hx
  · exact h.actions x hx
  · exact isWarning_of_mem_warnings hx

theorem waiting_queued (h : r.Reads t here there) (ht : t.Prompt) {us moved : List Update}
    (hm : moved ⊆ us) (slot : Slot) (w : Queued)
    (hw : (r.tracker.queued moved).waiting? slot = some w) :
    w.since ≤ t.ambient.elapsed ∧ slot.visibility = .shared ∧
      ⟨slot.scope, w.event, w.sequence⟩ ∈ here ++ us := by
  have hv : r.tracker.sendVisibility = .shared := by
    simp only [Tracker.sendVisibility, h.view.policy, ht.shared, if_true]
  have base : ∀ slot w, r.tracker.sends.waiting? slot = some w →
      w.since ≤ t.ambient.elapsed ∧ slot.visibility = .shared ∧
        ⟨slot.scope, w.event, w.sequence⟩ ∈ here ++ us := fun slot w hw =>
    (h.waiting slot w hw).imp_right fun h => h.imp_right (List.mem_append_left _)
  unfold Tracker.queued at hw
  rw [h.view.ambient, hv] at hw
  generalize r.tracker.sends = s at hw base
  induction moved generalizing s with
  | nil => exact base slot w hw
  | cons u moved ih =>
    refine ih (fun _ hx => hm (List.mem_cons_of_mem _ hx)) _ hw ?_
    have hu : u ∈ here ++ us := List.mem_append_right _ (hm List.mem_cons_self)
    exact SendQueue.forall_waiting_queue base ⟨Nat.le_refl _, rfl, hu⟩
      fun w₀ hw₀ => ⟨(base _ w₀ hw₀).1, rfl, hu⟩

theorem queued_queued (h : r.Reads t here there) (ht : t.Prompt) {moved : List Update}
    {s : Scope} {q : Nat}
    (hq : Update.Read moved s q ∨
      ∃ w, r.tracker.sends.waiting? ⟨s, .shared⟩ = some w ∧ q ≤ w.sequence) :
    ∃ w, (r.tracker.queued moved).waiting? ⟨s, .shared⟩ = some w ∧ q ≤ w.sequence := by
  have hv : r.tracker.sendVisibility = .shared := by
    simp only [Tracker.sendVisibility, h.view.policy, ht.shared, if_true]
  unfold Tracker.queued
  rw [hv]
  generalize r.tracker.sends = sends at hq
  induction moved generalizing sends with
  | nil =>
    rcases hq with hq | hq
    · exact absurd hq Update.not_read_nil
    · exact hq
  | cons u moved ih =>
    refine ih _ ?_
    rcases hq with ⟨u', hu', rfl, hle⟩ | ⟨w, hw, hle⟩
    · rcases List.mem_cons.1 hu' with rfl | hu'
      · obtain ⟨w, hw, hle'⟩ := sends.waiting_queue_self ⟨u'.scope, .shared⟩ u'.event
          u'.sequence r.tracker.ambient.elapsed
        exact .inr ⟨w, hw, Nat.le_trans hle hle'⟩
      · exact .inl ⟨u', hu', rfl, hle⟩
    · obtain ⟨w', hw', hle'⟩ := SendQueue.waiting_queue_of_waiting hw
      exact .inr ⟨w', hw', Nat.le_trans hle hle'⟩

theorem debounce_queued (h : r.Reads t here there) (us : List Update) :
    (r.tracker.queued us).debounce = 0 := by
  have h := h.debounce
  unfold Tracker.queued
  generalize r.tracker.sends = s at h
  induction us generalizing s with
  | nil => exact h
  | cons u us ih => exact ih _ h

variable [Backing σ]

theorem readAll (h : r.Reads t here there) (ht : t.Prompt) (us : List Update) :
    (r.readAll us).Reads t (here ++ us) there := by
  rw [r.readAll_eq]
  refine ⟨?_, h.debounce_queued _, fun s q => ?_, fun slot w hw => ?_, fun s q hq => ?_,
    h.actions_append⟩
  · exact ⟨h.view.ambient, h.view.policy, h.view.reader, h.view.chronicle, h.view.focus,
      h.view.awaited, h.view.held⟩
  · rw [MarkerBook.covers_advanceAll, h.covers, Update.read_append]
    show _ ∨ Update.Read us s q ↔ _
    tauto
  · rw [MarkerBook.moved_advanceAll] at hw
    exact h.waiting_queued ht (MarkerBook.sublist_setAll _ _ _ _).subset slot w hw
  · rw [MarkerBook.moved_advanceAll]
    rcases Update.read_append.1 hq with hq | hq
    · rcases h.queued s q hq with hc | hc | hc
      · exact .inl hc
      · exact .inr (.inl hc)
      · exact .inr (.inr (h.queued_queued ht (.inr hc)))
    · rcases MarkerBook.read_setAll .personal r.tracker.ambient.wallClock hq with hc | hm
      · rcases (h.covers s q).1 hc with hc | hc | hc
        · exact .inl hc
        · rcases h.queued s q hc with hc | hc | hc
          · exact .inl hc
          · exact .inr (.inl hc)
          · exact .inr (.inr (h.queued_queued ht (.inr hc)))
        · exact .inr (.inl hc)
      · exact .inr (.inr (h.queued_queued ht (.inl hm)))

theorem read (h : r.Reads t here there) (ht : t.Prompt) (u : Update) :
    (r.read u).Reads t (here ++ [u]) there := by
  by_cases hu : r.tracker.book.covers u.scope u.sequence = true
  · rw [r.read_of_covers hu]
    have hold : ∀ s q, Update.Read [u] s q → r.tracker.book.covers s q = true := by
      intro s q hq
      obtain ⟨rfl, hle⟩ := Update.read_singleton.1 hq
      exact MarkerBook.covers_of_le hle hu
    refine ⟨h.view, h.debounce, fun s q => ?_, fun slot w hw => ?_, fun s q hq => ?_, h.actions⟩
    · have := hold s q
      rw [h.covers] at this
      rw [h.covers, Update.read_append]
      tauto
    · exact (h.waiting slot w hw).imp_right fun h => h.imp_right (List.mem_append_left _)
    · rcases Update.read_append.1 hq with hq | hq
      · exact h.queued s q hq
      · rcases (h.covers s q).1 (hold s q hq) with hc | hc | hc
        · exact .inl hc
        · exact h.queued s q hc
        · exact .inr (.inl hc)
  · rw [r.read_of_not_covers hu]
    refine ⟨?_, h.debounce_queued _, fun s q => ?_, fun slot w hw => ?_, fun s q hq => ?_,
      h.actions_append⟩
    · exact ⟨h.view.ambient, h.view.policy, h.view.reader, h.view.chronicle, h.view.focus,
        h.view.awaited, h.view.held⟩
    · rw [MarkerBook.covers_advance, h.covers, Update.read_append, Update.read_singleton]
      tauto
    · exact h.waiting_queued ht (List.Subset.refl [u]) slot w hw
    · rcases Update.read_append.1 hq with hq | hq
      · rcases h.queued s q hq with hc | hc | hc
        · exact .inl hc
        · exact .inr (.inl hc)
        · exact .inr (.inr (h.queued_queued ht (.inr hc)))
      · exact .inr (.inr (h.queued_queued ht (.inl hq)))

theorem readToEnd (h : r.Reads t here there) (ht : t.Prompt) (s : Scope) :
    (r.readToEnd s).Reads t (here ++ (horizon t.chronicle s).toList) there := by
  unfold Turn.readToEnd
  rw [h.view.chronicle]
  cases horizon t.chronicle s with
  | none =>
    rw [Option.toList_none, List.append_nil]
    exact h
  | some u => exact h.read ht u

theorem readElsewhere (h : r.Reads t here there) (u : Update) (v : Visibility) :
    (r.readElsewhere u v).Reads t here (there ++ [u]) := by
  rw [r.readElsewhere_eq]
  refine ⟨?_, h.debounce, fun s q => ?_, h.waiting, fun s q hq => ?_, h.actions_append⟩
  · exact ⟨h.view.ambient, h.view.policy, h.view.reader, h.view.chronicle, h.view.focus,
      h.view.awaited, h.view.held⟩
  · rw [MarkerBook.covers_advance, h.covers, Update.read_append, Update.read_singleton]
    tauto
  · rcases h.queued s q hq with hc | hc | hc
    · exact .inl hc
    · exact .inr (.inl (Update.read_append.2 (.inl hc)))
    · exact .inr (.inr hc)

omit [Backing σ] in
theorem report (h : r.Reads t here there) (room : RoomId) :
    (r.report room).Reads t here there := by
  obtain ⟨reported, notices, he⟩ := r.report_eq room
  rw [he]
  exact ⟨⟨h.view.ambient, h.view.policy, h.view.reader, h.view.chronicle, h.view.focus,
    h.view.awaited, h.view.held⟩, h.debounce, h.covers, h.waiting, h.queued, h.actions⟩

end Reads

def owned {σ : Type} (t : Tracker σ) (placed : List Placed) : List Update :=
  (placed.filter fun p =>
    (t.chronicle.get? p.id).any fun e => decide (e.message.sender = t.reader)).map
      fun p => ⟨p.scope, p.id, p.position.sequence⟩

def followed {σ : Type} (t : Tracker σ) (room : RoomId) (placed : List Placed) (limited : Bool) :
    List Update :=
  match t.focus with
  | none => []
  | some focus =>
    if focus.room = room ∧ focus.live then
      let ends := fun s =>
        if limited || placed.any fun p => p.scope == s then (horizon t.chronicle s).toList else []
      ends (.ofRoom room) ++ match focus.thread with
        | none => []
        | some root => ends (.ofThread room root)
    else []

namespace Reads

variable {σ : Type} [Backing σ] {t : Tracker σ} {here there : List Update} {r : Turn σ}

theorem readOwn (h : r.Reads t here there) (ho : t.policy.ownMessagesRead = true) (p : Placed) :
    (r.readOwn p).Reads t here (there ++ owned t [p]) := by
  simp only [Turn.readOwn, h.view.chronicle, h.view.reader, h.view.policy, ho, and_true]
  cases he : t.chronicle.get? p.id with
  | none =>
    have hn : owned t [p] = [] := by simp [owned, he]
    rw [hn, List.append_nil]
    exact h
  | some e =>
    dsimp only
    by_cases hs : e.message.sender = t.reader
    · have hn : owned t [p] = [⟨p.scope, p.id, p.position.sequence⟩] := by
        simp [owned, he, hs]
      rw [hn, if_pos hs]
      exact h.readElsewhere _ _
    · have hn : owned t [p] = [] := by simp [owned, he, hs]
      rw [hn, if_neg hs, List.append_nil]
      exact h

theorem afterPlacing (h : r.Reads t here there) (ho : t.policy.ownMessagesRead = true)
    (hh : t.held = .empty) (placed : List Placed) :
    (r.afterPlacing placed).Reads t here (there ++ owned t placed) := by
  induction placed generalizing r there with
  | nil =>
    have hn : owned t [] = [] := rfl
    rw [hn, List.append_nil]
    exact h
  | cons p placed ih =>
    have hp := h.readOwn ho p
    have hr : (r.readOwn p).releaseHeld p = r.readOwn p := by
      unfold Turn.releaseHeld
      rw [hp.view.held, hh]
      rfl
    have hsplit : there ++ owned t (p :: placed) = there ++ owned t [p] ++ owned t placed := by
      rw [List.append_assoc, owned, owned, owned, ← List.map_append, ← List.filter_append]
      rfl
    rw [hsplit]
    show (((r.readOwn p).releaseHeld p).afterPlacing placed).Reads _ _ _
    rw [hr]
    exact ih hp

theorem followLive (h : r.Reads t here there) (ht : t.Prompt) (room : RoomId)
    (placed : List Placed) (limited : Bool) :
    (r.followLive room placed limited).Reads t (here ++ followed t room placed limited)
      there := by
  have step : ∀ (b : Bool) (s : Scope) {here : List Update} {r : Turn σ},
      r.Reads t here there → (if b then r.readToEnd s else r).Reads t
        (here ++ if b then (horizon t.chronicle s).toList else []) there := by
    intro b s here r h
    cases b with
    | false => simpa using h
    | true => exact h.readToEnd ht s
  simp only [Turn.followLive, followed, h.view.focus]
  cases t.focus with
  | none => simpa using h
  | some focus =>
    dsimp only
    by_cases hc : focus.room = room ∧ focus.live = true
    · rw [if_pos hc, if_pos hc]
      cases focus.thread with
      | none =>
        dsimp only
        rw [List.append_nil]
        exact step _ _ h
      | some root =>
        dsimp only
        rw [← List.append_assoc]
        exact step _ _ (step _ _ h)
    · rw [if_neg hc, if_neg hc, List.append_nil]
      exact h

end Reads

end Turn

/-! ## Answers -/

structure Action.Tell {σ : Type} (t : Tracker σ) (here there : List Update)
    (actions : List Action) : Prop where
  only : ∀ a ∈ actions, a.isWarning = true ∨ ∃ u ∈ here, a = .send u.scope u.event .shared
  news : ∀ s q, Update.Read here s q → t.book.covers s q = true ∨ Update.Read there s q ∨
    ∃ u ∈ here, u.scope = s ∧ q ≤ u.sequence ∧ .send s u.event .shared ∈ actions

structure Answer.Reads {σ : Type} (t : Tracker σ) (here there : List Update) (a : Answer σ) :
    Prop where
  view : t.SameView a.tracker
  prompt : a.tracker.Prompt
  covers : ∀ s q, a.tracker.book.covers s q = true ↔
    t.book.covers s q = true ∨ Update.Read here s q ∨ Update.Read there s q
  reply : ∃ actions, a.reply = .ok actions ∧ Action.Tell t here there actions

namespace Turn.Reads

variable {σ : Type} {t : Tracker σ} {here there : List Update} {r : Turn σ}

theorem isDue (h : r.Reads t here there) {slot : Slot} {w : Queued}
    (hw : r.tracker.sends.waiting? slot = some w) :
    r.tracker.sends.isDue t.ambient.elapsed w = true := by
  simp only [SendQueue.isDue, h.debounce, Nat.zero_le, decide_true, Bool.and_true,
    decide_eq_true_eq]
  exact (h.waiting slot w hw).1

theorem done (h : r.Reads t here there) (ht : t.Prompt) :
    r.release.done.Reads t here there := by
  have hnow : r.tracker.ambient.elapsed = t.ambient.elapsed := by rw [h.view.ambient]
  refine ⟨?_, ⟨?_, h.debounce, fun slot => ?_⟩, h.covers, _, rfl, fun a ha => ?_,
    fun s q hq => ?_⟩
  · exact ⟨h.view.ambient, h.view.policy, h.view.reader, h.view.chronicle, h.view.focus,
      h.view.awaited, h.view.held⟩
  · exact (congrArg Policy.sendShared h.view.policy).trans ht.shared
  · show (r.tracker.sends.release r.tracker.ambient.elapsed).1.waiting? slot = none
    rw [SendQueue.waiting?_release, hnow]
    cases hw : r.tracker.sends.waiting? slot with
    | none => rfl
    | some w => simp [h.isDue hw]
  · rcases List.mem_append.1 ha with ha | ha
    · exact .inl (h.actions a ha)
    · obtain ⟨o, ho, rfl⟩ := List.mem_map.1 ha
      obtain ⟨w, hw, -, he⟩ := r.tracker.sends.mem_release.1 ho
      obtain ⟨-, hv, hu⟩ := h.waiting _ w hw
      right
      refine ⟨_, hu, ?_⟩
      rw [he, hv]
  · rcases h.queued s q hq with hc | hc | ⟨w, hw, hle⟩
    · exact .inl hc
    · exact .inr (.inl hc)
    · obtain ⟨-, -, hu⟩ := h.waiting _ w hw
      refine .inr (.inr ⟨_, hu, rfl, hle, List.mem_append_right _ ?_⟩)
      have ho : (⟨⟨s, .shared⟩, w.event⟩ : Outgoing) ∈
          (r.tracker.sends.release r.tracker.ambient.elapsed).2 :=
        r.tracker.sends.mem_release.2 ⟨w, hw, hnow ▸ h.isDue hw, rfl⟩
      exact List.mem_map_of_mem (f := fun o : Outgoing =>
        Action.send o.slot.scope o.event o.slot.visibility) ho

end Turn.Reads

/-! ## Operations -/

namespace Tracker

variable {σ : Type} [Backing σ] {t : Tracker σ}

theorem reads_markRoomRead (ht : t.Prompt) (room : RoomId) :
    (t.markRoomRead room).Reads t (t.unreadEnds room) [] :=
  (((Turn.Reads.refl ht).readAll ht _).report room).done ht

theorem reads_viewRoom (ht : t.Prompt) (room : RoomId) :
    (t.viewRoom room).Reads { t with awaited := none, focus := some ⟨room, none, true⟩ }
      (Turn.horizon t.chronicle (.ofRoom room)).toList [] := by
  have ht' := ht.look (some ⟨room, none, true⟩) none
  exact (((Turn.Reads.refl ht').readToEnd ht' _).report room).done ht'

theorem reads_viewThread (ht : t.Prompt) {room : RoomId} {root : EventId} {p : Position}
    (hk : t.chronicle.rootKnown room root = true) (hp : t.chronicle.position? root = some p) :
    (t.viewThread room root).Reads { t with awaited := none, focus := some ⟨room, some root, true⟩ }
      ((Turn.horizon t.chronicle (.ofThread room root)).toList ++
        [⟨.ofRoom room, root, p.sequence⟩]) [] := by
  have ht' := ht.look (some ⟨room, some root, true⟩) none
  simp only [viewThread, hk, hp, Bool.true_or, if_true]
  exact ((((Turn.Reads.refl ht').readToEnd ht' _).read ht' _).report room).done ht'

omit [Backing σ] in
theorem reads_closeThread (ht : t.Prompt) : t.closeThread.Reads
    { t with focus := t.focus.map fun f => { f with thread := none } } [] [] := by
  have ht' := ht.look (t.focus.map fun f => { f with thread := none }) t.awaited
  exact (Turn.Reads.refl ht').done ht'

omit [Backing σ] in
theorem reads_leave (ht : t.Prompt) :
    t.leave.Reads { t with awaited := none, focus := none } [] [] := by
  have ht' := ht.look none none
  exact (Turn.Reads.refl ht').done ht'

theorem reads_jump (ht : t.Prompt) {room : RoomId} {event : EventId} {includeThreads : Bool}
    {e : Indexed} (he : t.chronicle.get? event = some e)
    (hb : Turn.barrier t.chronicle event includeThreads = none) {live : Bool}
    (hl : live = (t.chronicle.latest e.scope).any fun head => head.message.id == e.message.id) :
    (t.jump room event includeThreads).Reads
      { t with awaited := none, focus := some ⟨room, e.scope.thread, live⟩ }
      [⟨e.scope, e.message.id, e.position.sequence⟩] [] := by
  have ht' := ht.look (some ⟨room, e.scope.thread, live⟩) none
  have hland : (({ tracker := { t with awaited := none } } : Turn σ).land room e) =
      ({ tracker := { t with awaited := none, focus := some ⟨room, e.scope.thread, live⟩ } } :
        Turn σ).read ⟨e.scope, e.message.id, e.position.sequence⟩ := by
    rw [hl, Turn.land]
    cases t.chronicle.latest e.scope <;> rfl
  simp only [jump, hb, he, hland]
  exact (((Turn.Reads.refl ht').read ht' _).report room).done ht'

theorem reads_receive (ht : t.Prompt) (ho : t.policy.ownMessagesRead = true)
    (hh : t.held = .empty) (room : RoomId) (messages : List Message) (limited : Bool)
    {t₁ : Tracker σ} {placed : List Placed}
    (h₁ : t₁ = { t with chronicle := (t.chronicle.ingest room messages limited).1 })
    (hp : placed = (t.chronicle.ingest room messages limited).2) :
    (t.receive room messages limited).Reads t₁ (Turn.followed t₁ room placed limited)
      (Turn.owned t₁ placed) := by
  subst h₁ hp
  have ht' : ({ t with chronicle := (t.chronicle.ingest room messages limited).1 } :
      Tracker σ).Prompt := ⟨ht.shared, ht.debounce, ht.waiting⟩
  exact ((((Turn.Reads.refl ht').afterPlacing ho hh _).followLive ht' _ _ _).report room).done ht'

theorem reads_receipt (ht : t.Prompt) (room : RoomId) {event : EventId} {e : Indexed}
    (he : t.chronicle.get? event = some e) (v : Visibility) :
    (t.receipt room t.reader event v .scope).Reads t []
      [⟨e.scope, event, e.position.sequence⟩] := by
  simp only [receipt, if_true, he]
  exact (((Turn.Reads.refl ht).readElsewhere _ v).report _).done ht

theorem reads_receipt_of_ne (ht : t.Prompt) {user : UserId} (hu : user ≠ t.reader)
    (room : RoomId) (event : EventId) (v : Visibility) (reach : Reach) :
    (t.receipt room user event v reach).Reads t [] [] := by
  have h := Turn.Reads.refl ht
  simp only [receipt, if_neg hu]
  refine ⟨h.view, ht, h.covers, [], rfl, fun a ha => ?_, fun s q hq => ?_⟩
  · cases ha
  · exact absurd hq Update.not_read_nil

theorem reads_tick (ht : t.Prompt) : (t.tick t.ambient.elapsed).Reads t [] [] := by
  have h := (Turn.Reads.refl ht).done ht
  rw [tick_eq]
  refine ⟨⟨h.view.ambient, h.view.policy, h.view.reader, h.view.chronicle, h.view.focus,
    h.view.awaited, h.view.held⟩, ⟨h.prompt.shared, h.prompt.debounce, h.prompt.waiting⟩,
    fun s q => ?_, h.reply⟩
  rw [← h.covers]
  exact iff_of_eq (congrArg (· = true) (MarkerBook.covers_congr (MarkerBook.marks_retried _) s q))

end Tracker

end ReadTracking
