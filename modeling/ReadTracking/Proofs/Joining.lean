import ReadTracking.Proofs.Tables
import ReadTracking.Proofs.Waiting

/-!
# Sends join until they are handed out

Queues for one slot join into one send, until the slot is handed out or its room is forgotten.  The
joint send is the furthest of them, the first one that went that far if several did, and it waits
since the first of all.  So what waits is known from the calls alone, whatever instants they name,
and a release never looks back from an earlier instant to a later one.
-/

set_option autoImplicit false

namespace ReadTracking

inductive QueueCall where
  | queue (slot : Slot) (event : EventId) (sequence now : Nat)
  | release (now : Nat)
  | forget (room : RoomId)
  deriving DecidableEq, Repr

structure JoinOf (os : List Queued) (q : Queued) : Prop where
  since : os.head?.map (·.since) = some q.since
  furthest : ∃ before o after, os = before ++ o :: after ∧ o.event = q.event ∧
    o.sequence = q.sequence ∧ (∀ p ∈ before, p.sequence < q.sequence) ∧
    ∀ p ∈ after, p.sequence ≤ q.sequence

namespace JoinOf

variable {os : List Queued} {q q' : Queued}

theorem single (q : Queued) : JoinOf [q] q where
  since := rfl
  furthest := ⟨[], q, [], rfl, rfl, rfl, List.forall_mem_nil _, List.forall_mem_nil _⟩

theorem ne_nil (h : JoinOf os q) : os ≠ [] := by
  rintro rfl
  cases h.since

theorem le (h : JoinOf os q) : ∀ p ∈ os, p.sequence ≤ q.sequence := by
  obtain ⟨before, o, after, rfl, -, ho, hbefore, hafter⟩ := h.furthest
  intro p hp
  rcases List.mem_append.1 hp with hp | hp
  · exact Nat.le_of_lt (hbefore p hp)
  · rcases List.mem_cons.1 hp with rfl | hp
    · exact Nat.le_of_eq ho
    · exact hafter p hp

theorem joined (h : JoinOf os q) (event : EventId) (sequence now : Nat) :
    JoinOf (os ++ [⟨event, sequence, now⟩]) (SendQueue.joined q event sequence) := by
  have hsince : (os ++ [(⟨event, sequence, now⟩ : Queued)]).head?.map (·.since) = some q.since := by
    obtain ⟨first, rest, rfl⟩ := List.exists_cons_of_ne_nil h.ne_nil
    exact h.since
  unfold SendQueue.joined
  by_cases hlt : q.sequence < sequence
  · rw [if_pos hlt]
    refine ⟨hsince, os, _, [], rfl, rfl, rfl, ?_, List.forall_mem_nil _⟩
    intro p hp
    exact Nat.lt_of_le_of_lt (h.le p hp) hlt
  · rw [if_neg hlt]
    obtain ⟨before, o, after, rfl, hevent, ho, hbefore, hafter⟩ := h.furthest
    refine ⟨hsince, before, o, after ++ [⟨event, sequence, now⟩], ?_, hevent, ho, hbefore, ?_⟩
    · rw [List.append_assoc, List.cons_append]
    · intro p hp
      rcases List.mem_append.1 hp with hp | hp
      · exact hafter p hp
      · rw [List.mem_singleton.1 hp]
        exact Nat.le_of_not_lt hlt

theorem unique (h : JoinOf os q) (h' : JoinOf os q') : q = q' := by
  have hsince : q.since = q'.since := Option.some.inj (h.since.symm.trans h'.since)
  obtain ⟨before, o, after, hos, hevent, ho, hbefore, hafter⟩ := h.furthest
  obtain ⟨before', o', after', hos', hevent', ho', hbefore', hafter'⟩ := h'.furthest
  have hle : o.sequence ≤ o'.sequence := by
    rw [ho']
    exact h'.le o (hos ▸ List.mem_append_right _ List.mem_cons_self)
  have hle' : o'.sequence ≤ o.sequence := by
    rw [ho]
    exact h.le o' (hos' ▸ List.mem_append_right _ List.mem_cons_self)
  -- Neither of the two comes before the other, where all sequences are lower.
  have ho_eq : o = o' := by
    rcases List.append_eq_append_iff.1 (hos.symm.trans hos') with
      ⟨between, rfl, hrest⟩ | ⟨between, rfl, hrest⟩
    · cases between with
      | nil => exact (List.cons.inj hrest).1
      | cons p between =>
        obtain ⟨rfl, -⟩ := List.cons.inj hrest
        have := hbefore' o (List.mem_append_right _ List.mem_cons_self)
        omega
    · cases between with
      | nil => exact (List.cons.inj hrest).1.symm
      | cons p between =>
        obtain ⟨rfl, -⟩ := List.cons.inj hrest
        have := hbefore o' (List.mem_append_right _ List.mem_cons_self)
        omega
  subst ho_eq
  cases q
  cases q'
  simp_all

end JoinOf

namespace SendQueue

/-! ## Calls -/

def call (s : SendQueue) : QueueCall → SendQueue
  | .queue slot event sequence now => s.queue slot event sequence now
  | .release now => (s.release now).1
  | .forget room => s.forget room

def kept (s : SendQueue) (slot : Slot) (os : List Queued) : QueueCall → List Queued
  | .queue slot' event sequence now => if slot' = slot then os ++ [⟨event, sequence, now⟩] else os
  | .release now => if ∃ o ∈ (s.release now).2, o.slot = slot then [] else os
  | .forget room => if slot.scope.room = room then [] else os

def after (s : SendQueue) (cs : List QueueCall) : SendQueue := cs.foldl call s

def offers (s : SendQueue) (slot : Slot) : List QueueCall → List Queued → List Queued
  | [], os => os
  | c :: cs, os => (s.call c).offers slot cs (s.kept slot os c)

variable {s : SendQueue} {slot : Slot} {os : List Queued}

theorem debounce_after (s : SendQueue) (cs : List QueueCall) :
    (s.after cs).debounce = s.debounce := by
  induction cs generalizing s with
  | nil => rfl
  | cons c cs ih => cases c <;> exact ih _

theorem handed_iff (now : Nat) : (∃ o ∈ (s.release now).2, o.slot = slot) ↔
    ∃ q, s.waiting? slot = some q ∧ s.isDue now q = true := by
  constructor
  · rintro ⟨o, ho, rfl⟩
    obtain ⟨q, hq, hdue, -⟩ := s.mem_release.1 ho
    exact ⟨q, hq, hdue⟩
  · rintro ⟨q, hq, hdue⟩
    exact ⟨⟨slot, q.event⟩, s.mem_release.2 ⟨q, hq, hdue, rfl⟩, rfl⟩

theorem waiting?_forget (s : SendQueue) (room : RoomId) (slot : Slot) :
    (s.forget room).waiting? slot =
      if slot.scope.room = room then none else s.waiting? slot := by
  refine (Table.get?_filter _ _ _).trans ?_
  show (s.waiting? slot).filter _ = _
  by_cases h : slot.scope.room = room
  · simp [h]
  · cases s.waiting? slot <;> simp [h]

def Joins (s : SendQueue) (slot : Slot) (os : List Queued) : Prop :=
  match s.waiting? slot with
  | none => os = []
  | some q => JoinOf os q

theorem Joins.queue (h : s.Joins slot os) (slot' : Slot) (event : EventId) (sequence now : Nat) :
    (s.queue slot' event sequence now).Joins slot
      (s.kept slot os (.queue slot' event sequence now)) := by
  unfold Joins at h ⊢
  rw [waiting?_queue]
  by_cases hslot : slot' = slot
  · subst hslot
    simp only [kept, if_true]
    cases hq : s.waiting? slot' with
    | none =>
      rw [hq] at h
      subst h
      exact .single _
    | some q =>
      rw [hq] at h
      exact h.joined event sequence now
  · simp only [kept, if_neg hslot, if_neg (Ne.symm hslot)]
    exact h

theorem Joins.release (h : s.Joins slot os) (now : Nat) :
    (s.release now).1.Joins slot (s.kept slot os (.release now)) := by
  unfold Joins at h ⊢
  simp only [kept, handed_iff, waiting?_release]
  cases hq : s.waiting? slot with
  | none =>
    rw [hq] at h
    simpa using h
  | some q =>
    rw [hq] at h
    rw [Option.filter_some]
    cases hdue : s.isDue now q with
    | true => simp [hdue]
    | false => simpa [hdue] using h

theorem Joins.forget (h : s.Joins slot os) (room : RoomId) :
    (s.forget room).Joins slot (s.kept slot os (.forget room)) := by
  unfold Joins at h ⊢
  rw [waiting?_forget]
  by_cases hroom : slot.scope.room = room
  · simp [kept, hroom]
  · simpa [kept, hroom] using h

theorem Joins.call (h : s.Joins slot os) (c : QueueCall) :
    (s.call c).Joins slot (s.kept slot os c) := by
  cases c with
  | queue slot' event sequence now => exact h.queue slot' event sequence now
  | release now => exact h.release now
  | forget room => exact h.forget room

theorem Joins.after (h : s.Joins slot os) (cs : List QueueCall) :
    (s.after cs).Joins slot (s.offers slot cs os) := by
  induction cs generalizing s os with
  | nil => exact h
  | cons c cs ih => exact ih (h.call c)

theorem Joins.waiting?_eq_none_iff (h : s.Joins slot os) : s.waiting? slot = none ↔ os = [] := by
  unfold Joins at h
  cases hq : s.waiting? slot with
  | none =>
    rw [hq] at h
    simpa using h
  | some q =>
    rw [hq] at h
    simpa using h.ne_nil

theorem Joins.waiting?_eq_some_iff (h : s.Joins slot os) {q : Queued} :
    s.waiting? slot = some q ↔ JoinOf os q := by
  unfold Joins at h
  cases hq : s.waiting? slot with
  | none =>
    rw [hq] at h
    subst h
    exact ⟨nofun, fun hj => absurd rfl hj.ne_nil⟩
  | some q' =>
    rw [hq] at h
    constructor
    · rintro ⟨⟩
      exact h
    · exact fun hj => congrArg some (h.unique hj)

/-! ## Measured time -/

def elapsed? (since now : Nat) : Option Nat := if since ≤ now then some (now - since) else none

/-- Whether a waiting send is due.  How long it has waited is measured only if it was not queued
later. -/
def isDue? (s : SendQueue) (now : Nat) (q : Queued) : Option Bool :=
  if q.since ≤ now then (elapsed? q.since now).map fun time => decide (s.debounce ≤ time)
  else some false

def dueOf? (s : SendQueue) (now : Nat) : List (Slot × Queued) → Option (List (Slot × Queued))
  | [] => some []
  | p :: ps => do
    let isDue ← s.isDue? now p.2
    let rest ← s.dueOf? now ps
    return if isDue then p :: rest else rest

def release? (s : SendQueue) (now : Nat) : Option (SendQueue × List Outgoing) :=
  (s.dueOf? now s.pending.entries).map fun ps =>
    ({ s with pending := (ps.map (·.1)).foldl Table.erase s.pending },
      ps.map fun p => ⟨p.1, p.2.event⟩)

theorem isDue?_eq (s : SendQueue) (now : Nat) (q : Queued) :
    s.isDue? now q = some (s.isDue now q) := by
  unfold isDue? isDue elapsed?
  by_cases h : q.since ≤ now
  · simp [h]
  · simp [h]

theorem dueOf?_eq (s : SendQueue) (now : Nat) (ps : List (Slot × Queued)) :
    s.dueOf? now ps = some (ps.filter fun p => s.isDue now p.2) := by
  induction ps with
  | nil => rfl
  | cons p ps ih =>
    rw [dueOf?, isDue?_eq, ih, List.filter_cons]
    rfl

/-- Every time that a release needs can be measured. -/
theorem release?_eq (s : SendQueue) (now : Nat) : s.release? now = some (s.release now) := by
  rw [release?, dueOf?_eq]
  refine congrArg some (Prod.ext (congrArg (SendQueue.mk s.debounce) ?_) rfl)
  apply Table.ext_get?
  intro slot
  apply Option.ext
  intro q
  rw [Table.get?_foldl_erase_eq_some_iff, Table.get?_filter, Option.filter_eq_some_iff, and_comm]
  apply and_congr_right
  intro hq
  -- The slot is among those that are due exactly if its own send is.
  rw [Bool.not_eq_true', ← Bool.not_eq_true, List.mem_map]
  apply not_congr
  constructor
  · rintro ⟨⟨_, q'⟩, hmem, rfl⟩
    obtain ⟨hmem, hdue⟩ := List.mem_filter.1 hmem
    cases hq.symm.trans ((Table.get?_eq_some_iff _).2 hmem)
    exact hdue
  · exact fun hdue => ⟨(slot, q), List.mem_filter.2 ⟨(Table.get?_eq_some_iff _).1 hq, hdue⟩, rfl⟩

theorem isDue_iff {now : Nat} {q : Queued} :
    s.isDue now q = true ↔ q.since ≤ now ∧ s.debounce ≤ now - q.since := by
  simp [isDue]

theorem pairwise_release (s : SendQueue) (now : Nat) :
    (s.release now).2.Pairwise fun o o' => KeyOrder.before o.slot o'.slot := by
  simp only [release, List.pairwise_map]
  exact (s.pending.filter _).rising

/-- Whatever is called, and whatever instants are named: a slot waits with the join of what was
queued for it since it was last handed out or forgotten, and not at all if that is nothing.  A
release measures only times that have passed, hands out every slot that has waited for the
debounce, once and in order, and leaves the others as they were. -/
theorem sends_join_until_handed_out (debounce : Nat) (cs : List QueueCall) :
    let s := (empty debounce).after cs
    (∀ slot, let os := (empty debounce).offers slot cs []
      (s.waiting? slot = none ↔ os = []) ∧ ∀ q, s.waiting? slot = some q ↔ JoinOf os q) ∧
    ∀ now, s.release? now = some (s.release now) ∧
      (∀ slot event, ⟨slot, event⟩ ∈ (s.release now).2 ↔ ∃ q, s.waiting? slot = some q ∧
        q.since ≤ now ∧ debounce ≤ now - q.since ∧ event = q.event) ∧
      (s.release now).2.Pairwise (fun o o' => KeyOrder.before o.slot o'.slot) ∧
      ∀ slot q, (s.release now).1.waiting? slot = some q ↔
        s.waiting? slot = some q ∧ ¬ (q.since ≤ now ∧ debounce ≤ now - q.since) := by
  intro s
  have hdebounce : s.debounce = debounce := debounce_after _ cs
  constructor
  · intro slot os
    have hempty : (empty debounce).Joins slot [] := rfl
    have hjoins : s.Joins slot os := hempty.after cs
    exact ⟨hjoins.waiting?_eq_none_iff, fun q => hjoins.waiting?_eq_some_iff⟩
  · intro now
    refine ⟨s.release?_eq now, ?_, s.pairwise_release now, ?_⟩
    · intro slot event
      rw [mem_release]
      simp only [isDue_iff, hdebounce, and_assoc]
    · intro slot q
      rw [waiting?_release, Option.filter_eq_some_iff, Bool.not_eq_true', ← Bool.not_eq_true,
        isDue_iff, hdebounce]

example :
    let slot : Slot := ⟨.ofRoom ⟨"!r"⟩, .shared⟩
    let cs : List QueueCall := [.queue slot ⟨"$1"⟩ 1 4, .release 9, .queue slot ⟨"$2"⟩ 3 10,
      .queue slot ⟨"$3"⟩ 3 5, .release 6, .queue slot ⟨"$4"⟩ 2 0, .release 14]
    let s := (empty 5).after cs
    (empty 5).offers slot cs [] = [⟨⟨"$2"⟩, 3, 10⟩, ⟨⟨"$3"⟩, 3, 5⟩, ⟨⟨"$4"⟩, 2, 0⟩] ∧
      s.waiting? slot = some ⟨⟨"$2"⟩, 3, 10⟩ ∧
      (s.release 15).2 = [⟨slot, ⟨"$2"⟩⟩] := by
  decide +kernel

end SendQueue

end ReadTracking
