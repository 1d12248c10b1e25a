import Mathlib.Data.List.Perm.Subperm
import ReadTracking.Proofs.Expecting
import ReadTracking.Proofs.Forward

/-!
# Receipts that wait are in order

Receipts are held only for messages that are not indexed, for no more of them than may be, and each
receipt once.  Every command keeps that, whatever it is and however it ends.
-/

set_option autoImplicit false

namespace ReadTracking

namespace Table

variable {α β γ : Type} [KeyOrder α] {t : Table α β} {k : α}

theorem size_le_of_keys {t' : Table α γ} (h : ∀ k v, t'.get? k = some v → ∃ w, t.get? k = some w) :
    t'.size ≤ t.size := by
  have hsub : t'.keys ⊆ t.keys := by
    intro k hk
    obtain ⟨v, hv⟩ := mem_keys.1 hk
    exact mem_keys.2 (h k v hv)
  have hlen := (List.subperm_of_subset t'.nodup_keys hsub).length_le
  rwa [length_keys, length_keys] at hlen

theorem size_insert_of_some {w : β} (h : t.get? k = some w) (v : β) :
    (t.insert k v).size ≤ t.size := by
  apply size_le_of_keys
  intro k' v' hv'
  by_cases e : k' = k
  · exact ⟨w, e ▸ h⟩
  · exact ⟨v', (t.get?_insert_of_ne v e).symm.trans hv'⟩

theorem size_insert_le (t : Table α β) (k : α) (v : β) : (t.insert k v).size ≤ t.size + 1 := by
  have hsub : (t.insert k v).keys ⊆ k :: t.keys := by
    intro k' hk
    by_cases e : k' = k
    · exact e ▸ List.mem_cons_self
    · obtain ⟨w, hw⟩ := mem_keys.1 hk
      rw [get?_insert_of_ne _ _ e] at hw
      exact List.mem_cons_of_mem _ (mem_keys.2 ⟨w, hw⟩)
  have hlen := (List.subperm_of_subset (nodup_keys _) hsub).length_le
  rwa [List.length_cons, length_keys, length_keys] at hlen

end Table

/-- The receipts that wait are in order for what is indexed. -/
structure Tidy (c : Chronicle) (held : Table EventId Held) : Prop where
  unindexed : ∀ id h, held.get? id = some h → c.get? id = none
  bounded : held.size ≤ Tracker.maxHeld
  once : ∀ id h, held.get? id = some h → h.receipts.Nodup

namespace Tidy

variable {c c' : Chronicle} {held held' : Table EventId Held}

theorem start (c : Chronicle) : Tidy c .empty where
  unindexed _ _ h := nomatch h
  bounded := Nat.zero_le _
  once _ _ h := nomatch h

theorem mono (h : Tidy c held) (hsub : ∀ id x, held'.get? id = some x → held.get? id = some x)
    (hn : ∀ id x, held'.get? id = some x → c'.get? id = none) : Tidy c' held' where
  unindexed := hn
  bounded := by
    have hsize : held'.size ≤ held.size := by
      apply Table.size_le_of_keys
      intro id x hx
      exact ⟨x, hsub id x hx⟩
    exact Nat.le_trans hsize h.bounded
  once id x hx := h.once id x (hsub id x hx)

theorem hold {σ : Type} {t : Tracker σ} (h : Tidy t.chronicle t.held) (room : RoomId)
    {event : EventId} (hn : t.chronicle.get? event = none) (v : Visibility) (reach : Reach) :
    Tidy t.chronicle (({ tracker := t } : Turn σ).hold room event v reach).tracker.held := by
  rcases Turn.hold_cases { tracker := t } room event v reach with ⟨-, -, heq⟩ | ⟨hroom, heq⟩
  · rw [heq]
    exact h
  rw [heq]
  have hcases : ∀ {id x}, (t.held.insert event (((t.held.get? event).getD ⟨room, []⟩).add
      (v, reach))).get? id = some x →
      id = event ∧ x = ((t.held.get? event).getD ⟨room, []⟩).add (v, reach) ∨
        t.held.get? id = some x := by
    intro id x hx
    by_cases e : id = event
    · subst e
      rw [Table.get?_insert_self] at hx
      exact .inl ⟨rfl, (Option.some.inj hx).symm⟩
    · exact .inr ((Table.get?_insert_of_ne _ _ e).symm.trans hx)
  refine ⟨fun id x hx => ?_, ?_, fun id x hx => ?_⟩
  · rcases hcases hx with ⟨rfl, -⟩ | hold
    · exact hn
    · exact h.unindexed id x hold
  -- Only the first receipt for a message adds an entry, and then there was room.
  · cases hheld : t.held.get? event with
    | none =>
      have hsize := t.held.size_insert_le event
        (((none : Option Held).getD ⟨room, []⟩).add (v, reach))
      have hlt : t.held.size < Tracker.maxHeld := hroom hheld
      dsimp only
      omega
    | some y => exact Nat.le_trans (Table.size_insert_of_some hheld _) h.bounded
  · rcases hcases hx with ⟨rfl, rfl⟩ | hold
    · apply Held.nodup_add
      cases hheld : t.held.get? id with
      | none => exact List.nodup_nil
      | some y => exact h.once id y hheld
    · exact h.once id x hold

end Tidy

namespace Tracker

variable {σ : Type} {t : Tracker σ}

theorem get?_loaded_of_some {id : EventId} {e : Indexed} (h : t.chronicle.get? id = some e)
    (c : Command) : (t.loaded c).chronicle.get? id = some e := by
  unfold loaded
  split
  · exact Chronicle.get?_take_of_some h
  · exact h

theorem mem_placed_iff (hc : t.chronicle.Sound) {c : Command} {id : EventId} :
    id ∈ (t.placed c).map (·.id) ↔
      t.chronicle.get? id = none ∧ ∃ e, (t.loaded c).chronicle.get? id = some e := by
  unfold placed loaded
  split
  · exact hc.mem_placed_iff
  · constructor
    · intro h
      cases h
    · rintro ⟨hn, e, he⟩
      rw [hn] at he
      cases he

/-- After a command fewer receipts are held, for messages that did not come, or it is a receipt
that is held. -/
theorem Holds.fewer_or_hold {c : Command} {held : Table EventId Held} (h : t.Holds c held) :
    (∀ id x, held.get? id = some x →
      id ∉ (t.placed c).map (·.id) ∧ t.held.get? id = some x) ∨
    ∃ room event v reach, c = .receipt room t.reader event v reach ∧
      t.chronicle.get? event = none ∧
      held = (({ tracker := t } : Turn σ).hold room event v reach).tracker.held := by
  cases h with
  | settle hs =>
    left
    intro id x hx
    rw [hs] at hx
    split at hx
    next => cases hx
    next hid => exact ⟨hid, hx⟩
  | hold room hn v reach => exact .inr ⟨room, _, v, reach, rfl, hn, rfl⟩
  | drop room =>
    left
    intro id x hx
    rw [Table.get?_filter, Option.filter_eq_some_iff] at hx
    exact ⟨fun hid => (nomatch hid), hx.1⟩

variable [Backing σ]

theorem of_get?_handle (hc : t.chronicle.Sound) {c : Command} {id : EventId} {e : Indexed}
    (he : (t.handle c).tracker.chronicle.get? id = some e) :
    t.chronicle.get? id = some e ∨ id ∈ (t.placed c).map (·.id) := by
  rcases t.forget_or_conducts c with ⟨room, rfl⟩ | ⟨ws, place, h⟩
  · left
    have he : (t.forget room).tracker.chronicle.get? id = some e := he
    rw [chronicle_forget, hc.get?_forget, Option.filter_eq_some_iff] at he
    exact he.1
  · rw [h.grants.chronicle] at he
    cases hid : t.chronicle.get? id with
    | none => exact .inr ((mem_placed_iff hc).2 ⟨hid, e, he⟩)
    | some e' => exact .inl ((get?_loaded_of_some hid c).symm.trans he)

theorem tidy_handle (hc : t.chronicle.Sound) (h : Tidy t.chronicle t.held) (c : Command) :
    Tidy (t.handle c).tracker.chronicle (t.handle c).tracker.held := by
  -- What was not indexed and does not come is not indexed afterwards.
  have hnone : ∀ {id}, t.chronicle.get? id = none → id ∉ (t.placed c).map (·.id) →
      (t.handle c).tracker.chronicle.get? id = none := by
    intro id hn hnew
    apply Option.eq_none_iff_forall_ne_some.2
    intro e he
    rcases of_get?_handle hc he with hold | hid
    · cases hn.symm.trans hold
    · exact hnew hid
  have hheld := (t.foresees c).held
  generalize (t.handle c).tracker.held = held at hheld ⊢
  rcases hheld.fewer_or_hold with hfewer | ⟨room, event, v, reach, rfl, hn, rfl⟩
  · apply h.mono fun id x hx => (hfewer id x hx).2
    intro id x hx
    obtain ⟨hid, hx⟩ := hfewer id x hx
    exact hnone (h.unindexed id x hx) hid
  · apply (h.hold room hn v reach).mono fun _ _ hx => hx
    intro id x hx
    exact hnone ((h.hold room hn v reach).unindexed id x hx) (fun hid => nomatch hid)

theorem tidy_meet (hc : t.chronicle.Sound) (h : Tidy t.chronicle t.held) (m : Moment) :
    Tidy (t.meet m).tracker.chronicle (t.meet m).tracker.held := by
  cases m with
  | surroundings | subscribe | unsubscribe => exact h
  | command c => exact tidy_handle hc h c

theorem tidy_after (hc : t.chronicle.Sound) (h : Tidy t.chronicle t.held) (ms : List Moment) :
    Tidy (t.after ms).chronicle (t.after ms).held :=
  after_keeps_of_sound (P := fun t => Tidy t.chronicle t.held) hc h
    fun m _ _ hs ht => tidy_meet hs ht m

end Tracker

end ReadTracking
