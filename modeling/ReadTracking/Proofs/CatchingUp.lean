import ReadTracking.Proofs.Forward
import ReadTracking.Proofs.Upright

/-!
# Catching up

Catching up in a room hands over the events of its timeline that were never handed over, and fills
its gaps, the oldest with these events and each further one with an empty batch.  Afterwards no gap
is left in the room, so nothing of it is incomplete.  Its whole timeline is indexed but for the
events that are astray: they count as handed over, and catching up passes them by.
-/

set_option autoImplicit false

namespace ReadTracking

section Complete

variable {σ : Type} {c : Chronicle} {b : MarkerBook σ} {room : RoomId}

theorem Strand.hasGapAfter_of_no_gap {s : Strand} (h : ∀ g, s.gaps.contains g = false)
    (q : Option Nat) : s.hasGapAfter q = false := by
  cases hg : s.hasGapAfter q with
  | false => rfl
  | true =>
    have hnone : s.gaps.isEmpty = true :=
      Table.isEmpty_iff.2 fun g => Table.contains_eq_false_iff.1 (h g)
    have hsome := s.hasGapAfter_none hg
    rw [Strand.hasGapAfter, hnone] at hsome
    cases hsome

theorem incomplete_of_no_gap
    (h : ∀ scope g, scope.room = room → (c.strand scope).gaps.contains g = false) :
    (roomState c b room).incomplete = false := by
  have hscope : ∀ scope : Scope, scope.room = room →
      (countScope c b scope).incomplete = false := by
    intro scope hroom
    show c.hasGapAfter scope (b.readTo scope) = false
    rw [c.hasGapAfter_eq]
    exact Strand.hasGapAfter_of_no_gap (fun g => h scope g hroom) _
  have hthread : ∀ s ∈ (roomState c b room).threads, s.incomplete = false := by
    intro s hs
    obtain ⟨root, -, hroot⟩ := List.mem_filterMap.1 hs
    unfold threadState at hroot
    split at hroot
    · cases hroot
      exact hscope (.ofThread room root) rfl
    · split at hroot
      · cases hroot
        rfl
      · cases hroot
  show (_ || (roomState c b room).threads.any (·.incomplete)) = false
  rw [hscope (.ofRoom room) rfl, Bool.false_or, List.any_eq_false]
  intro s hs
  rw [hthread s hs]
  exact Bool.false_ne_true

end Complete

theorem Tracker.backfill_taken {σ : Type} [Backing σ] (t : Tracker σ) (room : RoomId)
    (messages : List Message) (filled : Option Nat) :
    ∃ actions, (t.handle (.backfill room messages filled)).reply = .ok actions := ⟨_, rfl⟩

namespace Session

variable {s s' : Session Shelf} {room : RoomId}

structure CaughtUp (s : Session Shelf) (room : RoomId) (s' : Session Shelf) : Prop
    extends s.Keeps s' where
  timelines : s'.server.timelines = s.server.timelines
  indexed : ∀ m ∈ s.server.timeline room,
    s'.tracker.chronicle.get? m.id = none ↔ s.Astray m.id
  complete : (s'.tracker.roomState room).incomplete = false

def missing (s : Session Shelf) (room : RoomId) : List Message :=
  (s.server.timeline room).filter fun m => !s.delivered.contains m.id

theorem mem_missing {m : Message} :
    m ∈ s.missing room ↔ m ∈ s.server.timeline room ∧ s.delivered.contains m.id = false := by
  rw [missing, List.mem_filter, Bool.not_eq_true']

/-- The first batch fills the oldest gap of the room, and owes the others. -/
theorem Upright.owes_backfill (h : s.Upright) (room : RoomId) :
    (s.handled (.backfill room (s.missing room) ((s.gaps.get? room).getD []).head?)
      (s.gaps.erase room)).Owes (((s.gaps.get? room).getD []).tail.map (room, ·)) := by
  have hb : s.tracker.batch?
      (.backfill room (s.missing room) ((s.gaps.get? room).getD []).head?) =
        some ⟨room, s.missing room, false, ((s.gaps.get? room).getD []).head?⟩ := rfl
  have hnumbered : s.Numbered (s.missing room) :=
    fun m hm => h.numbered_timeline room m (mem_missing.1 hm).1
  refine h.handle (c := .backfill room (s.missing room) ((s.gaps.get? room).getD []).head?) rfl
    hnumbered fun {scope g} hg => ?_
  rw [Tracker.chronicle_loaded hb] at hg
  obtain ⟨hold, hne⟩ := h.sound.gaps_take_whole hg
  have hnoted := (h.gaps hold).resolve_right List.not_mem_nil
  by_cases hroom : scope.room = room
  · rw [hroom] at hnoted ⊢
    have hfilled := hne hroom
    refine .inr (List.mem_map_of_mem ?_)
    cases hgaps : (s.gaps.get? room).getD [] with
    | nil =>
      rw [hgaps] at hnoted
      cases hnoted
    | cons oldest later =>
      rw [hgaps] at hnoted hfilled
      exact (List.mem_cons.1 hnoted).resolve_left fun e => hfilled (congrArg some e.symm)
  · rw [Table.get?_erase_of_ne _ hroom]
    exact .inl hnoted

/-- The gaps that are owed are filled one by one. -/
theorem Owes.closeGaps {gaps : List Nat} (h : s.Owes (gaps.map (room, ·))) :
    ∃ s' actions, Session.closeGaps room gaps s = (s', .ok actions) ∧ s'.Upright ∧
      actions.filterMap Action.request? = [] ∧ s'.server = s.server ∧ s'.gaps = s.gaps ∧
      s'.delivered = s.delivered ∧
      ∀ id, s'.tracker.chronicle.get? id = s.tracker.chronicle.get? id := by
  induction gaps generalizing s with
  | nil => exact ⟨s, [], rfl, h, rfl, rfl, rfl, rfl, fun _ => rfl⟩
  | cons gap gaps ih =>
    let c : Command := .backfill room [] (some gap)
    have hb : s.tracker.batch? c = some ⟨room, [], false, some gap⟩ := rfl
    have hnumbered : s.Numbered [] := fun _ hm => absurd hm List.not_mem_nil
    have hnext : (s.handled c s.gaps).Owes (gaps.map (room, ·)) := by
      refine h.handle (c := c) rfl hnumbered fun {scope g} hg => ?_
      rw [Tracker.chronicle_loaded hb] at hg
      obtain ⟨hold, hne⟩ := h.sound.gaps_take_whole hg
      refine (h.gaps hold).imp_right fun howed => ?_
      refine (List.mem_cons.1 howed).resolve_left fun e => ?_
      exact hne (congrArg Prod.fst e) (congrArg some (congrArg Prod.snd e).symm)
    obtain ⟨actions, hreply⟩ := s.tracker.backfill_taken room [] (some gap)
    obtain ⟨s', later, hclose, hupright, hlater, hserver, hgaps, hdelivered, hget⟩ := ih hnext
    refine ⟨s', actions ++ later, ?_, hupright, ?_, hserver, hgaps, hdelivered, fun id => ?_⟩
    · have hafter : s.after (s.tracker.backfill room [] (some gap)) =
          (s.handled c s.gaps, .ok actions) := Prod.ext rfl hreply
      rw [Session.closeGaps, hafter]
      dsimp only
      rw [hclose]
      rfl
    · rw [List.filterMap_append, requests_of_reply rfl hreply, hlater]
      rfl
    · rw [hget]
      show (s.tracker.handle c).tracker.chronicle.get? id = _
      rw [s.tracker.chronicle_handle (Command.ne_forget (c := c) rfl), Tracker.chronicle_loaded hb]
      exact Chronicle.get?_take

theorem Upright.astray_backfill (h : s.Upright) {m : Message} (hm : m ∈ s.server.timeline room)
    {gap : Option Nat} {gaps : Table RoomId (List Nat)} :
    (s.handled (.backfill room (s.missing room) gap) gaps).tracker.chronicle.get? m.id = none ↔
      s.Astray m.id := by
  have hb : s.tracker.batch? (.backfill room (s.missing room) gap) =
    some ⟨room, s.missing room, false, gap⟩ := rfl
  have hchronicle := (s.tracker.chronicle_handle
    (Command.ne_forget (c := .backfill room (s.missing room) gap) rfl)).trans
      (Tracker.chronicle_loaded hb)
  show (s.tracker.handle (.backfill room (s.missing room) gap)).tracker.chronicle.get? m.id = none ↔
    _
  rw [hchronicle]
  constructor
  · intro hnone
    have hdelivered : s.delivered.contains m.id = true := by
      by_contra hd
      have hmissing := mem_missing.2 ⟨hm, Bool.not_eq_true _ ▸ hd⟩
      obtain ⟨e, he⟩ := Chronicle.exists_get?_take (c := s.tracker.chronicle)
        (b := ⟨room, s.missing room, false, gap⟩) hmissing (h.server.housed hm)
      cases he.symm.trans hnone
    refine ⟨hdelivered, Option.eq_none_iff_forall_ne_some.2 fun e he => ?_⟩
    cases (Chronicle.get?_take_of_some he).symm.trans hnone
  · rintro ⟨hd, hnone⟩
    refine Option.eq_none_iff_forall_ne_some.2 fun e he => ?_
    rcases Chronicle.of_get?_take he with hold | ⟨-, hmem, -⟩
    · cases hold.symm.trans hnone
    · have hfresh := (mem_missing.1 hmem).2
      rw [h.sound.take.named he, hd] at hfresh
      cases hfresh

theorem Upright.catchUp (h : s.Upright) {name : String} (hroom : s.roomOf name = .ok room) :
    ∃ s', s.catchUp name = .ok s' ∧ s.CaughtUp room s' := by
  let c : Command := .backfill room (s.missing room) ((s.gaps.get? room).getD []).head?
  have hb : s.tracker.batch? c =
    some ⟨room, s.missing room, false, ((s.gaps.get? room).getD []).head?⟩ := rfl
  have hhoused : ∀ m ∈ s.missing room, m.room = room :=
    fun m hm => h.server.housed (mem_missing.1 hm).1
  obtain ⟨actions, hreply⟩ := s.tracker.backfill_taken room (s.missing room)
    ((s.gaps.get? room).getD []).head?
  obtain ⟨s₁, more, hclose, hupright, hmore, hserver, hgaps, hdelivered, hget⟩ :=
    (h.owes_backfill room).closeGaps
  have hask : (actions ++ more).filterMap Action.request? = [] := by
    rw [List.filterMap_append, requests_of_reply rfl hreply, hmore]
    rfl
  obtain ⟨s', hsettle, hrests⟩ := hupright.settle hask "backfill"
  have hkeeps : s.Keeps s₁ := by
    refine ⟨hupright, fun {id} hd => ?_, fun {id} ha => ?_⟩
    · rw [hdelivered]
      exact contains_delivered_handled.2 (.inl hd)
    · have hastray : (s.handled c (s.gaps.erase room)).Astray id := by
        rwa [Astray, hdelivered, hget] at ha
      exact astray_of_handled rfl hb hhoused hastray
  refine ⟨s', ?_, hkeeps.trans hrests.keeps, ?_, fun m hm => ?_, ?_⟩
  · have hafter : ({ s with
        delivered := s.delivered.insertAll ((s.missing room).map fun m : Message => (m.id, ()))
        gaps := s.gaps.erase room } : Session Shelf).after
          (s.tracker.backfill room (s.missing room) ((s.gaps.get? room).getD []).head?) =
        (s.handled c (s.gaps.erase room), .ok actions) := Prod.ext rfl hreply
    unfold Session.catchUp
    rw [hroom]
    show Except.bind (.ok room) _ = _
    unfold missing at hafter
    simp only [Except.bind, hafter]
    rw [hclose]
    exact hsettle
  · rw [hrests.timelines, hserver]
    rfl
  · rw [hrests.chronicle, hget]
    exact h.astray_backfill hm
  · refine incomplete_of_no_gap fun scope g hscope => ?_
    rw [hrests.chronicle, ← Bool.not_eq_true]
    intro hg
    -- Nothing is owed any more, and the session has noted no gap of this room.
    have hnoted := (hupright.gaps hg).resolve_right List.not_mem_nil
    rw [hgaps, hscope] at hnoted
    change g ∈ ((s.gaps.erase room).get? room).getD [] at hnoted
    rw [Table.get?_erase_self] at hnoted
    cases hnoted

end Session

end ReadTracking
