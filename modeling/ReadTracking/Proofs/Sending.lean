import Mathlib.Data.List.Induction
import Mathlib.Data.List.Nodup
import ReadTracking.Proofs.Queueing

/-!
# Receipts go forward only

Every reading on this device is of something unread, so what is read in a scope rises.  What is
taken out of the queue was read in this way, and it was queued before anything that is read later.
So the receipts of a scope leave the queue in the order in which they were read, each of them once,
and what still waits is newer than all that has left.
-/

set_option autoImplicit false

namespace ReadTracking

variable {σ : Type}

def Rises (us : List Update) : Prop :=
  us.Pairwise fun u u' => u.scope = u'.scope → u.sequence < u'.sequence

theorem Apart.rises {us : List Update} (h : Apart us) : Rises us :=
  h.imp fun hne he => absurd he hne

theorem Rises.nodup {us : List Update} (h : Rises us) : us.Nodup := by
  refine h.imp ?_
  rintro u _ hlt rfl
  exact Nat.lt_irrefl _ (hlt rfl)

theorem rises_append {us us' : List Update} : Rises (us ++ us') ↔ Rises us ∧ Rises us' ∧
    ∀ u ∈ us, ∀ u' ∈ us', u.scope = u'.scope → u.sequence < u'.sequence :=
  List.pairwise_append

def Update.ofSend (p : Slot × Queued) : Update := ⟨p.1.scope, p.2.event, p.2.sequence⟩

namespace Tracker

variable [Backing σ]

def along {α : Type} (f : Tracker σ → Moment → List α) : Tracker σ → List Moment → List α
  | _, [] => []
  | t, m :: ms => f t m ++ (t.meet m).tracker.along f ms

theorem along_append {α : Type} (f : Tracker σ → Moment → List α) (t : Tracker σ)
    (ms ms' : List Moment) : t.along f (ms ++ ms') = t.along f ms ++ (t.after ms).along f ms' := by
  induction ms generalizing t with
  | nil => rfl
  | cons m ms ih =>
    show f t m ++ (t.meet m).tracker.along f (ms ++ ms') = _
    rw [ih, ← List.append_assoc]
    rfl

def reads (t : Tracker σ) (ms : List Moment) : List Update := t.along readNow ms

def taken (t : Tracker σ) (ms : List Moment) : List (Slot × Queued) := t.along takenNow ms

def conveyed (t : Tracker σ) (ms : List Moment) : List (Slot × Queued) :=
  t.taken ms ++ (t.after ms).sends.pending.entries

theorem reads_concat (t : Tracker σ) (ms : List Moment) (m : Moment) :
    t.reads (ms ++ [m]) = t.reads ms ++ (t.after ms).readNow m := by
  refine (along_append _ _ _ _).trans (congrArg _ ?_)
  exact List.append_nil _

theorem taken_concat (t : Tracker σ) (ms : List Moment) (m : Moment) :
    t.taken (ms ++ [m]) = t.taken ms ++ (t.after ms).takenNow m := by
  refine (along_append _ _ _ _).trans (congrArg _ ?_)
  exact List.append_nil _

/-! ## One moment -/

section

variable {t : Tracker σ} {m : Moment} {us : List Update} {ps : List (Slot × Queued)}

theorem Delivery.waited {sends : SendQueue} (h : t.Delivery m sends) {slot : Slot} {q : Queued}
    (hq : (t.meet m).tracker.sends.waiting? slot = some q) : sends.waiting? slot = some q := by
  cases h with
  | kept _ after => rwa [after] at hq
  | handed _ _ after _ | dropped _ _ after =>
    rw [after, SendQueue.waiting?_release, Option.filter_eq_some_iff] at hq
    exact hq.1

theorem mem_takenNow {p : Slot × Queued} : p ∈ t.takenNow m ↔
    (t.queued (t.readNow m)).waiting? p.1 = some p.2 ∧
      (t.meet m).tracker.sends.waiting? p.1 ≠ some p.2 := by
  rw [takenNow, ← Table.get?_eq_some_iff, Table.get?_filter, Option.filter_eq_some_iff, bne_iff_ne]
  rfl

theorem Conveys.slots_apart (h : t.Conveys m) :
    (t.takenNow m ++ (t.meet m).tracker.sends.pending.entries).Pairwise fun p p' => p.1 ≠ p'.1 := by
  refine List.pairwise_append.2
    ⟨List.pairwise_map.1 (Table.nodup_keys _), List.pairwise_map.1 (Table.nodup_keys _), ?_⟩
  rintro ⟨slot, q⟩ hp ⟨_, q'⟩ hp' rfl
  obtain ⟨hq, hgone⟩ := mem_takenNow.1 hp
  have hq' : (t.meet m).tracker.sends.waiting? slot = some q' := (Table.get?_eq_some_iff _).2 hp'
  cases hq.symm.trans (h.delivery.waited hq')
  exact hgone hq'

/-- What was read so far rises, what has left the queue and what waits were read in this way and
rise too, and all of it goes to one slot a scope. -/
structure Forward (t : Tracker σ) (us : List Update) (ps : List (Slot × Queued)) : Prop where
  rises : Rises us
  covered : ∀ u ∈ us, t.book.covers u.scope u.sequence = true
  inOrder : Rises ((ps ++ t.sends.pending.entries).map Update.ofSend)
  queued : ∀ p ∈ ps ++ t.sends.pending.entries, Update.ofSend p ∈ us
  slots : ∀ slot q, t.sends.waiting? slot = some q → slot.visibility = t.sendVisibility

theorem Forward.rises_readNow (h : t.Forward us ps) : Rises (us ++ t.readNow m) := by
  refine rises_append.2 ⟨h.rises, (t.apart_readNow m).rises, ?_⟩
  intro u hu u' hu' he
  have hunread : ¬ (t.readingFrom m).covers u'.scope u'.sequence = true := by
    cases m with
    | command c => simpa using (List.mem_filter.1 hu').2
    | surroundings | subscribe | unsubscribe => cases hu'
  refine Nat.lt_of_not_le fun hle => hunread ?_
  have hread : (t.readingFrom m).covers u.scope u.sequence = true :=
    covers_readingFrom (h.covered u hu)
  exact MarkerBook.covers_of_le hle (he ▸ hread)

theorem Forward.waiting_queued (h : t.Forward us ps) {slot : Slot} {q : Queued}
    (hq : (t.queued (t.readNow m)).waiting? slot = some q) :
    slot.visibility = t.sendVisibility ∧
      ((∃ since, t.sends.waiting? slot = some ⟨q.event, q.sequence, since⟩) ∨
        Update.ofSend (slot, q) ∈ t.readNow m) := by
  refine forall_waiting_queued (P := fun slot event sequence =>
    slot.visibility = t.sendVisibility ∧
      ((∃ since, t.sends.waiting? slot = some ⟨event, sequence, since⟩) ∨
        ⟨slot.scope, event, sequence⟩ ∈ t.readNow m)) ?_ ?_ slot q hq
  · intro slot w hw
    exact ⟨h.slots slot w hw, .inl ⟨w.since, hw⟩⟩
  · intro u hu
    exact ⟨rfl, .inr hu⟩

theorem Conveys.waited (h : t.Conveys m) {p : Slot × Queued}
    (hp : p ∈ t.takenNow m ++ (t.meet m).tracker.sends.pending.entries) :
    (t.queued (t.readNow m)).waiting? p.1 = some p.2 := by
  rcases List.mem_append.1 hp with hp | hp
  · exact (mem_takenNow.1 hp).1
  · exact h.delivery.waited ((Table.get?_eq_some_iff _).2 hp)

/-- Whatever a moment takes out or leaves waited before for the same message, or it was just
read. -/
theorem Forward.waited_or_read (h : t.Forward us ps) (hc : t.Conveys m) {p : Slot × Queued}
    (hp : p ∈ t.takenNow m ++ (t.meet m).tracker.sends.pending.entries) :
    Update.ofSend p ∈ t.sends.pending.entries.map Update.ofSend ∨
      Update.ofSend p ∈ t.readNow m := by
  rcases (h.waiting_queued (hc.waited hp)).2 with ⟨since, hw⟩ | hread
  · refine .inl (List.mem_map.2 ⟨(p.1, ⟨p.2.event, p.2.sequence, since⟩), ?_, rfl⟩)
    exact (Table.get?_eq_some_iff _).1 hw
  · exact .inr hread

/-- What a moment takes out or leaves goes to one slot a scope, so each scope comes once. -/
theorem Forward.rises_waited (h : t.Forward us ps) (hc : t.Conveys m) :
    Rises ((t.takenNow m ++ (t.meet m).tracker.sends.pending.entries).map Update.ofSend) := by
  refine List.pairwise_map.2 (hc.slots_apart.imp_of_mem ?_)
  rintro ⟨⟨scope, v⟩, q⟩ ⟨⟨_, v'⟩, q'⟩ hp hp' hne rfl
  have hv : v = t.sendVisibility := (h.waiting_queued (hc.waited hp)).1
  have hv' : v' = t.sendVisibility := (h.waiting_queued (hc.waited hp')).1
  exact absurd (hv.trans hv'.symm) fun he => hne (he ▸ rfl)

/-- A moment keeps the receipts in order. -/
theorem Forward.meet (h : t.Forward us ps) (hm : ∀ room, m ≠ .command (.forget room)) :
    (t.meet m).tracker.Forward (us ++ t.readNow m) (ps ++ t.takenNow m) := by
  have hc := t.conveys m hm
  have hrises : Rises (us ++ t.readNow m) := h.rises_readNow
  have hold : Rises (ps.map Update.ofSend ++ t.sends.pending.entries.map Update.ofSend) :=
    List.map_append ▸ h.inOrder
  refine ⟨hrises, ?_, ?_, ?_, ?_⟩
  · intro u hu
    rcases List.mem_append.1 hu with hu | hu
    · exact (onward_meet hm).covers (h.covered u hu)
    · exact hc.covered u hu
  · rw [List.append_assoc, List.map_append]
    refine rises_append.2 ⟨(rises_append.1 hold).1, h.rises_waited hc, ?_⟩
    -- What had left is older than what waited, and all of it was read before what is read now.
    intro u hu u' hu' he
    obtain ⟨p, hp, rfl⟩ := List.mem_map.1 hu'
    rcases h.waited_or_read hc hp with hpending | hread
    · exact (rises_append.1 hold).2.2 u hu _ hpending he
    · obtain ⟨p₀, hp₀, rfl⟩ := List.mem_map.1 hu
      have hbefore := h.queued p₀ (List.mem_append_left _ hp₀)
      exact (rises_append.1 hrises).2.2 _ hbefore _ hread he
  · intro p hp
    rw [List.append_assoc] at hp
    rcases List.mem_append.1 hp with hp | hp
    · exact List.mem_append_left _ (h.queued p (List.mem_append_left _ hp))
    · rcases h.waited_or_read hc hp with hpending | hread
      · obtain ⟨p₀, hp₀, he⟩ := List.mem_map.1 hpending
        rw [← he]
        exact List.mem_append_left _ (h.queued p₀ (List.mem_append_right _ hp₀))
      · exact List.mem_append_right _ hread
  · intro slot q hq
    have hv : (t.meet m).tracker.sendVisibility = t.sendVisibility := by
      simp only [sendVisibility, hc.policy]
    rw [hv]
    exact (h.waiting_queued (hc.delivery.waited hq)).1

end

/-! ## Courses -/

theorem forward_after {t : Tracker σ} (h : t.Forward [] []) {ms : List Moment}
    (hms : ∀ room, .command (.forget room) ∉ ms) :
    (t.after ms).Forward (t.reads ms) (t.taken ms) := by
  induction ms using List.reverseRecOn with
  | nil => exact h
  | append_singleton ms m ih =>
    have hbefore := ih fun room hm => hms room (List.mem_append_left _ hm)
    rw [reads_concat, taken_concat, after_append]
    refine hbefore.meet fun room he => hms room ?_
    rw [he]
    exact List.mem_append_right _ List.mem_cons_self

theorem forward_of_openOver {ambient : Ambient} {policy : Policy} {reader : UserId} {s : σ}
    {t : Tracker σ} (ht : (openOver ambient policy reader s).1 = .ok t) : t.Forward [] [] := by
  obtain ⟨book, rfl, -⟩ := eq_fresh_of_openOver ht
  exact ⟨.nil, List.forall_mem_nil _, .nil, List.forall_mem_nil _, fun _ _ hq => by cases hq⟩

/-- What a course reads on this device rises in every scope.  The sends that leave the queue,
in the order in which they leave it, and then those that wait are receipts for what was read; they
rise in every scope too, none of them comes twice, and the scope is read as far as each of them
says.  Reading queues its receipts, and what leaves the queue is sent, in that order, except where a
jump is refused. -/
theorem receipts_go_forward_only {ambient : Ambient} {policy : Policy} {reader : UserId} {s : σ}
    {t : Tracker σ} (ht : (openOver ambient policy reader s).1 = .ok t) {ms : List Moment}
    (hms : ∀ room, .command (.forget room) ∉ ms) :
    Rises (t.reads ms) ∧
    Rises ((t.conveyed ms).map Update.ofSend) ∧
    (t.conveyed ms).Nodup ∧
    (∀ p ∈ t.conveyed ms, Update.ofSend p ∈ t.reads ms ∧
      ∃ q, (t.after ms).book.readTo p.1.scope = some q ∧ p.2.sequence ≤ q) ∧
    ∀ m, (∀ room, m ≠ .command (.forget room)) →
      (t.after ms).Delivery m ((t.after ms).queued ((t.after ms).readNow m)) ∧
      (¬ (t.after ms).RefusesJump m → ((t.after ms).meet m).actions.filter Action.isSend =
        ((t.after ms).takenNow m).map Action.ofSend) := by
  have h := forward_after (forward_of_openOver ht) hms
  refine ⟨h.rises, h.inOrder, List.Nodup.of_map Update.ofSend h.inOrder.nodup, ?_, ?_⟩
  · intro p hp
    have hread := h.queued p hp
    exact ⟨hread, MarkerBook.covers_iff_readTo.1 (h.covered _ hread)⟩
  · intro m hm
    have hc := (t.after ms).conveys m hm
    exact ⟨hc.delivery, hc.sent⟩

def readOn : List Moment :=
  let room : RoomId := ⟨"!r"⟩
  [.command (.receive room [⟨⟨"$1"⟩, room, ⟨"@bot"⟩, 1, .plain, false⟩] false),
    .command (.viewRoom room),
    .command (.tick 1000000000),
    .surroundings { Ambient.counting with elapsed := 1000000000 },
    .command (.receive room [⟨⟨"$2"⟩, room, ⟨"@bot"⟩, 2, .plain, false⟩] false)]

theorem receipts_go_forward_only_reading_on :
    (patient.conveyed readOn).map Update.ofSend =
        [⟨.ofRoom ⟨"!r"⟩, ⟨"$1"⟩, 1⟩, ⟨.ofRoom ⟨"!r"⟩, ⟨"$2"⟩, 2⟩] ∧
      Rises ((patient.conveyed readOn).map Update.ofSend) := by
  have ht : (openOver .counting { debounce := 500000000 } ⟨"@me"⟩ Shelf.empty).1 = .ok patient :=
    rfl
  have hms : ∀ room, .command (.forget room) ∉ readOn := by simp [readOn]
  exact ⟨by decide, (receipts_go_forward_only ht hms).2.1⟩

end Tracker

end ReadTracking
