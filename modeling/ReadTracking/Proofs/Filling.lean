import ReadTracking.Proofs.Skipping

/-!
# Where gaps come from and where they go

A limited batch of messages that are all new leaves one gap, at its least sequence, and a batch
that fills a gap leaves that gap nowhere in its room.  No other gap comes, in any scope.  So
somebody who notes the least sequence of every limited batch of a room, and later fills all that
was noted, leaves no gap behind.
-/

set_option autoImplicit false

namespace ReadTracking

theorem RoomLog.ne_of_contains_gaps_closeGap (log : RoomLog) {thread : Option EventId} {q g : Nat}
    (h : ((log.closeGap q).strand thread).gaps.contains g = true) : g ≠ q := by
  have hclosed : ∀ s : Strand, (s.closeGap q).gaps.contains q = false := fun s =>
    Table.contains_eq_false_iff.2 (Table.get?_erase_self _ _)
  have hnone : ((log.closeGap q).strand thread).gaps.contains q = false := by
    cases thread with
    | none => exact hclosed log.trunk
    | some root =>
      simp only [strand, closeGap, strand?, Table.get?_mapValues]
      cases log.threads.get? root with
      | none => rfl
      | some s => exact hclosed s
  rintro rfl
  exact Bool.noConfusion (h.symm.trans hnone)

namespace Chronicle

variable {c : Chronicle} {room : RoomId} {ms : List Message} {s : Scope} {g : Nat}

theorem of_contains_gaps_openGap {roots : List EventId} {q : Nat}
    (h : ((c.openGap room roots q).strand s).gaps.contains g = true) :
    (c.strand s).gaps.contains g = true ∨ s.room = room ∧ g = q := by
  unfold strand at h ⊢
  rw [log_openGap] at h
  split at h
  next e =>
    rw [← e] at h
    rcases RoomLog.contains_gaps_openGap _ _ h with h | h
    · exact .inr ⟨e, h⟩
    · exact .inl h
  next => exact .inl h

theorem of_contains_gaps_closeGap {q : Nat}
    (h : ((c.closeGap room q).1.strand s).gaps.contains g = true) :
    (c.strand s).gaps.contains g = true ∧ (s.room = room → g ≠ q) := by
  unfold strand at h ⊢
  rw [log_closeGap] at h
  split at h
  next e =>
    rw [← e] at h
    exact ⟨RoomLog.contains_gaps_closeGap _ _ h,
      fun _ => RoomLog.ne_of_contains_gaps_closeGap _ h⟩
  next e => exact ⟨h, fun e' => absurd e' e⟩

/-! ## Batches of new messages -/

structure News (c : Chronicle) (room : RoomId) (ms : List Message) : Prop where
  room : ∀ m ∈ ms, m.room = room
  new : ∀ m ∈ ms, c.get? m.id = none
  single : ∀ m ∈ ms, ∀ m' ∈ ms, m.id = m'.id → m.sequence = m'.sequence

theorem News.mem_sequences (hn : c.News room ms) (hc : c.Sound) (q : Nat) :
    q ∈ (c.appendAll room ms).2.map (·.position.sequence) ↔ q ∈ ms.map (·.sequence) := by
  have hcame : ∀ p ∈ (c.appendAll room ms).2,
      ∃ m ∈ ms, m.id = p.id ∧ p.position.sequence = m.sequence := by
    intro p hp
    obtain ⟨e, he, -, hposition⟩ := has_appendAll p hp
    obtain ⟨hnone, -⟩ := mem_placed_appendAll.1 (List.mem_map_of_mem hp)
    rcases of_get?_appendAll he with hold | ⟨-, hmem, -⟩
    · cases hnone.symm.trans hold
    · have hnumber := hc.appendAll.numbered he
      exact ⟨e.message, hmem, hc.appendAll.named he, hposition ▸ hnumber⟩
  simp only [List.mem_map]
  constructor
  · rintro ⟨p, hp, rfl⟩
    obtain ⟨m, hm, -, hq⟩ := hcame p hp
    exact ⟨m, hm, hq.symm⟩
  · rintro ⟨m, hm, rfl⟩
    obtain ⟨p, hp, hid⟩ := exists_placed (c := c) hm (hn.room m hm) (hn.new m hm)
    obtain ⟨m', hm', hid', hq⟩ := hcame p hp
    exact ⟨p, hp, hq.trans (hn.single m' hm' m hm (hid'.trans hid))⟩

theorem News.min?_sequences (hn : c.News room ms) (hc : c.Sound) :
    ((c.appendAll room ms).2.map (·.position.sequence)).min? = (ms.map (·.sequence)).min? := by
  have hmem := hn.mem_sequences hc
  cases hmin : (ms.map (·.sequence)).min? with
  | none =>
    rw [List.min?_eq_none_iff] at hmin ⊢
    refine List.eq_nil_iff_forall_not_mem.2 fun q hq => ?_
    rw [hmem, hmin] at hq
    cases hq
  | some q =>
    obtain ⟨hq, hleast⟩ := List.min?_eq_some_iff.1 hmin
    exact List.min?_eq_some_iff.2 ⟨(hmem q).2 hq, fun q' hq' => hleast q' ((hmem q').1 hq')⟩

/-- A gap behind a batch was there before and is not the one that the batch fills, or the batch is
limited and it is the least sequence of the batch. -/
theorem Sound.gaps_take_cases (hc : c.Sound) {b : Batch}
    (hn : b.limited = true → c.News b.room b.messages)
    (h : ((c.take b).1.strand s).gaps.contains g = true) :
    ((c.strand s).gaps.contains g = true ∧ (s.room = b.room → b.filled ≠ some g)) ∨
      b.limited = true ∧ s.room = b.room ∧ (b.messages.map (·.sequence)).min? = some g := by
  obtain ⟨room, messages, limited, filled⟩ := b
  have hingest : ((c.ingest room messages limited).1.strand s).gaps.contains g = true →
      (c.strand s).gaps.contains g = true ∨
        limited = true ∧ s.room = room ∧ (messages.map (·.sequence)).min? = some g := by
    intro h
    cases limited with
    | false =>
      have hsame : ((c.appendAll room messages).1.strand s).gaps = (c.strand s).gaps :=
        hc.gaps_appendAll s
      exact .inl (hsame ▸ h)
    | true =>
      have hmin := (hn rfl).min?_sequences hc
      cases hfirst : ((c.appendAll room messages).2.map (·.position.sequence)).min? with
      | none =>
        have hnothing : (c.ingest room messages true).1 = (c.appendAll room messages).1 := by
          unfold Chronicle.ingest
          dsimp only
          split
          next first _ h' => cases hfirst.symm.trans h'
          next => rfl
        rw [hnothing, hc.gaps_appendAll] at h
        exact .inl h
      | some first =>
        rw [ingest_limited hfirst] at h
        rcases of_contains_gaps_openGap h with h | ⟨hroom, rfl⟩
        · rw [hc.gaps_appendAll] at h
          exact .inl h
        · exact .inr ⟨rfl, hroom, hmin.symm.trans hfirst⟩
  cases filled with
  | none => exact (hingest h).imp_left fun h => ⟨h, fun _ e => (nomatch e)⟩
  | some q =>
    obtain ⟨h, hne⟩ := of_contains_gaps_closeGap h
    refine (hingest h).imp_left fun h => ⟨h, fun hroom e => ?_⟩
    exact hne hroom (Option.some.inj e).symm

/-- A gap behind a batch that is not limited was there before, and is not the one that the batch
fills. -/
theorem Sound.gaps_take_whole (hc : c.Sound) {filled : Option Nat}
    (h : ((c.take ⟨room, ms, false, filled⟩).1.strand s).gaps.contains g = true) :
    (c.strand s).gaps.contains g = true ∧ (s.room = room → filled ≠ some g) :=
  (hc.gaps_take_cases (b := ⟨room, ms, false, filled⟩) nofun h).resolve_right fun hl => nomatch hl.1

end Chronicle

/-! ## Commands -/

namespace Tracker

variable {σ : Type} {t : Tracker σ} {c : Command}

theorem of_get?_loaded {id : EventId} {e : Indexed}
    (h : (t.loaded c).chronicle.get? id = some e) :
    t.chronicle.get? id = some e ∨ t.chronicle.get? id = none ∧ e.message ∈ c.messages := by
  cases hb : t.batch? c with
  | none =>
    rw [loaded_eq_self hb] at h
    exact .inl h
  | some b =>
    rw [loaded_eq hb] at h
    exact (Chronicle.of_get?_take h).imp_right fun h => ⟨h.1, messages_batch? hb ▸ h.2.1⟩

theorem chronicle_loaded {b : Batch} (hb : t.batch? c = some b) :
    (t.loaded c).chronicle = (t.chronicle.take b).1 :=
  congrArg Tracker.chronicle (loaded_eq hb)

/-- A command that forgets no room leaves its messages indexed, and nothing else changes in the
chronicle. -/
theorem chronicle_handle [Backing σ] (t : Tracker σ) (hc : ∀ room, c ≠ .forget room) :
    (t.handle c).tracker.chronicle = (t.loaded c).chronicle := by
  obtain ⟨ws, place, hconduct⟩ := t.conducts c hc
  exact hconduct.grants.chronicle

end Tracker

end ReadTracking
