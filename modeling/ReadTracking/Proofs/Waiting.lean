import ReadTracking.SendQueue

/-!
# What waits to be sent

A slot waits with at most one send.  Queueing changes the send of its own slot alone and keeps
the instant at which that slot was first queued; releasing takes out what is due and hands out
exactly that.
-/

set_option autoImplicit false

namespace ReadTracking.SendQueue

variable (s : SendQueue)

theorem waiting?_queue (slot slot' : Slot) (event : EventId) (sequence now : Nat) :
    (s.queue slot event sequence now).waiting? slot' =
      if slot' = slot then
        some (match s.waiting? slot with
          | some q => joined q event sequence
          | none => ⟨event, sequence, now⟩)
      else s.waiting? slot' := by
  by_cases e : slot' = slot
  · subst e
    rw [if_pos rfl]
    refine (Table.get?_insert_self _ _ _).trans ?_
    unfold waiting?
    cases s.pending.get? slot' <;> rfl
  · rw [if_neg e]
    exact Table.get?_insert_of_ne _ _ e

theorem waiting?_queue_self {slot : Slot} (event : EventId) {sequence : Nat} (now : Nat)
    (h : ∀ q, s.waiting? slot = some q → q.sequence < sequence) :
    ∃ since, (s.queue slot event sequence now).waiting? slot = some ⟨event, sequence, since⟩ ∧
      ∀ q, s.waiting? slot = some q → since = q.since := by
  rw [waiting?_queue, if_pos rfl]
  cases hq : s.waiting? slot with
  | none => exact ⟨now, rfl, fun q hq => by cases hq⟩
  | some q =>
    refine ⟨q.since, ?_, fun q' hq' => by cases hq'; rfl⟩
    simp [joined, h q hq]

theorem waiting?_release (now : Nat) (slot : Slot) :
    (s.release now).1.waiting? slot = (s.waiting? slot).filter fun q => !s.isDue now q :=
  Table.get?_filter _ _ _

theorem mem_release {now : Nat} {o : Outgoing} :
    o ∈ (s.release now).2 ↔
      ∃ q, s.waiting? o.slot = some q ∧ s.isDue now q = true ∧ o.event = q.event := by
  simp only [release, List.mem_map, waiting?]
  constructor
  · rintro ⟨⟨slot, q⟩, hq, rfl⟩
    have hg := (Table.get?_eq_some_iff _).2 hq
    rw [Table.get?_filter, Option.filter_eq_some_iff] at hg
    exact ⟨q, hg.1, hg.2, rfl⟩
  · rintro ⟨q, hq, hd, he⟩
    refine ⟨(o.slot, q), ?_, by rw [← he]⟩
    rw [← Table.get?_eq_some_iff, Table.get?_filter, Option.filter_eq_some_iff]
    exact ⟨hq, hd⟩

end ReadTracking.SendQueue
