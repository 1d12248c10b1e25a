import ReadTracking.Proofs.Serving

/-!
# The chronicle indexes what happened

A session delivers events of the server's timelines to the tracker.  What was delivered is
indexed in the scope that the account says, and it counts if the user has to read it.  So the
unread messages of a scope are those that a plain count over the account finds.
-/

set_option autoImplicit false

namespace ReadTracking.Chronicle

open Reference Reference.World

structure Knows (c : Chronicle) (w : World) (delivered : Fin roomCount → Happening → Prop) :
    Prop where
  sound : c.Sound
  judge : c.judge = .of Session.me {}
  happened : ∀ {i h}, delivered i h → h ∈ (w.room i).happenings
  told : ∀ {id e}, c.get? id = some e →
    ∃ i h, delivered i h ∧ w.Tells i h e.message ∧ e.scope = w.scope i h.thread
  indexed : ∀ {i h}, delivered i h → ∃ e, c.get? h.id = some e
  gapless : ∀ s, (c.strand s).gaps = .empty

namespace Knows

variable {c : Chronicle} {w : World} {P P' : Fin roomCount → Happening → Prop}
  {i j : Fin roomCount} {h : Happening} {m : Message}

theorem empty (w : World) :
    (Chronicle.empty (.of Session.me {})).Knows w fun _ _ => False where
  sound := sound_empty _
  judge := rfl
  happened h := h.elim
  told h := by cases h
  indexed h := h.elim
  gapless s := by
    obtain ⟨room, thread⟩ := s
    cases thread <;> rfl

theorem of_iff (hc : c.Knows w P) (h : ∀ i h, P i h ↔ P' i h) : c.Knows w P' where
  sound := hc.sound
  judge := hc.judge
  happened hp := hc.happened ((h _ _).2 hp)
  told he := by
    obtain ⟨i, h', hp, ht⟩ := hc.told he
    exact ⟨i, h', (h _ _).1 hp, ht⟩
  indexed hp := hc.indexed ((h _ _).2 hp)
  gapless := hc.gapless

theorem congr {w' : World} (hc : c.Knows w P)
    (hh : ∀ i : Fin roomCount, (w'.room i).happenings = (w.room i).happenings) :
    c.Knows w' P where
  sound := hc.sound
  judge := hc.judge
  happened hp := by
    rw [hh]
    exact hc.happened hp
  told he := by
    obtain ⟨i, h', hp, ht, hs⟩ := hc.told he
    exact ⟨i, h', hp, ht.congr (hh i), hs.trans (scope_congr (hh i) _).symm⟩
  indexed := hc.indexed
  gapless := hc.gapless

theorem add (hc : c.Knows w P) (hw : w.Orderly) (j : Fin roomCount) (x : Happening) :
    c.Knows (w.add j x) P where
  sound := hc.sound
  judge := hc.judge
  happened hp := mem_add.2 (.inl (hc.happened hp))
  told he := by
    obtain ⟨i, h, hp, ht, hs⟩ := hc.told he
    have hplace := hw.hasPlace (hc.happened hp)
    exact ⟨i, h, hp, ht.add hplace x, hs.trans (scope_add hplace).symm⟩
  indexed := hc.indexed
  gapless := hc.gapless

theorem get?_id (hc : c.Knows w P) (hw : w.Orderly) (hp : P i h) :
    ∃ e, c.get? h.id = some e ∧ w.Tells i h e.message ∧ e.scope = w.scope i h.thread ∧
      e.position.sequence = h.sequence := by
  obtain ⟨e, he⟩ := hc.indexed hp
  obtain ⟨i', h', hp', ht, hs⟩ := hc.told he
  have hid : h'.id = h.id := ht.id.symm.trans (hc.sound.named he)
  obtain ⟨rfl, rfl⟩ := hw.id_inj (hc.happened hp') (hc.happened hp) hid
  exact ⟨e, he, ht, hs, (hc.sound.numbered he).trans ht.sequence⟩

theorem of_get? (hc : c.Knows w P) {id : EventId} {e : Indexed} (he : c.get? id = some e) :
    ∃ i h, P i h ∧ id = h.id ∧ w.Tells i h e.message ∧ e.scope = w.scope i h.thread ∧
      e.position.sequence = h.sequence := by
  obtain ⟨i, h, hp, ht, hs⟩ := hc.told he
  exact ⟨i, h, hp, (hc.sound.named he).symm.trans ht.id, ht, hs,
    (hc.sound.numbered he).trans ht.sequence⟩

theorem countable (hc : c.Knows w P) {id : EventId} {e : Indexed} (he : c.get? id = some e)
    (ht : w.Tells i h e.message) : e.countable = h.countable := by
  have hsender : (e.message.sender != Session.me) = !h.own := by
    have := ht.sender
    cases ho : h.own with
    | true => simp [this.2 ho]
    | false =>
      have hne : e.message.sender ≠ Session.me := fun h => by simp [this.1 h] at ho
      simp [hne]
  rw [Indexed.countable, hc.sound.judged he, hc.judge]
  show (Judge.counts (.of Session.me {}) e.message.content && (e.message.sender != Session.me)) = _
  rw [hsender]
  have hsays := ht.content
  cases hcontent : e.message.content <;> rw [hcontent] at hsays <;> cases hsays
  case joined hr => simp [Judge.counts, Happening.countable, hr]
  case plain hr =>
    rcases hr with hr | hr <;> simp [Judge.counts, Happening.countable, Happening.own, hr]
  case replied hr _ => simp [Judge.counts, Happening.countable, Happening.own, hr]
  case edited hr _ _ _ => simp [Judge.counts, Judge.of, Happening.countable, hr]
  case reacted hr _ _ _ => simp [Judge.counts, Happening.countable, hr]

/-! ## Delivering events -/

/-- An event is indexed in the scope that the account says, if what happened before it in its
room is known. -/
theorem scopeFor (hc : c.Knows w P) (hw : w.Orderly) (hm : h ∈ (w.room i).happenings)
    (ht : w.Tells i h m)
    (hbefore : ∀ h' ∈ (w.room i).happenings, h'.sequence < h.sequence → P i h') :
    c.scopeFor m = w.scope i h.thread := by
  have related : ∀ {target : Happening}, target ∈ (w.room i).happenings →
      target.sequence < h.sequence → target.thread = h.thread →
      ∃ e, c.get? target.id = some e ∧ e.message.room = m.room ∧
        e.scope = w.scope i h.thread := by
    intro target htarget hlt hthread
    obtain ⟨e, he, ht', hs, -⟩ := hc.get?_id hw (hbefore target htarget hlt)
    exact ⟨e, he, ht'.room.trans ht.room.symm, hs.trans (by rw [hthread])⟩
  have hsays := ht.content
  unfold Chronicle.scopeFor
  cases hcontent : m.content <;> rw [hcontent] at hsays <;> cases hsays
  case joined hr =>
    rw [hw.main hm (.inr hr), ht.room]
    rfl
  case plain hr =>
    have hroot : h.canRoot = true := by
      rcases hr with hr | hr <;> simp [Happening.canRoot, hr]
    rw [hw.main hm (.inl hroot), ht.room]
    rfl
  case replied hr hthread =>
    rw [hthread, ht.room]
    rfl
  case edited target hr htarget hlt hthread =>
    obtain ⟨e, he, hroom, hs⟩ := related htarget hlt hthread
    simp only [he, hroom, if_true, hs]
  case reacted key target hr htarget hlt hthread =>
    obtain ⟨e, he, hroom, hs⟩ := related htarget hlt hthread
    simp only [he, hroom, if_true, hs]

theorem append (hc : c.Knows w P) (hw : w.Orderly) (hm : h ∈ (w.room i).happenings)
    (ht : w.Tells i h m)
    (hbefore : ∀ h' ∈ (w.room i).happenings, h'.sequence < h.sequence → P i h') :
    (c.append m).1.Knows w fun j x => P j x ∨ j = i ∧ x = h := by
  cases hg : c.get? m.id with
  | some e =>
    rw [append_of_contains c (Table.contains_iff.2 ⟨e, hg⟩)]
    obtain ⟨i', h', hp, ht', -⟩ := hc.told hg
    have hid : h'.id = h.id := ht'.id.symm.trans ((hc.sound.named hg).trans ht.id)
    obtain ⟨rfl, rfl⟩ := hw.id_inj (hc.happened hp) hm hid
    refine hc.of_iff fun j x => ⟨.inl, ?_⟩
    rintro (hp' | ⟨rfl, rfl⟩)
    · exact hp'
    · exact hp
  | none =>
    have hscope := hc.scopeFor hw hm ht hbefore
    constructor
    · exact hc.sound.append m
    · rw [append_eq hg]
      exact hc.judge
    · rintro j x (hp | ⟨rfl, rfl⟩)
      · exact hc.happened hp
      · exact hm
    · exact forall_append hg
        (P := fun _ e => ∃ j x, (P j x ∨ j = i ∧ x = h) ∧ w.Tells j x e.message ∧
          e.scope = w.scope j x.thread)
        ⟨i, h, .inr ⟨rfl, rfl⟩, ht, hscope⟩
        fun _ _ he => by
          obtain ⟨j, x, hp, hx⟩ := hc.told he
          exact ⟨j, x, .inl hp, hx⟩
    · rintro j x (hp | ⟨rfl, rfl⟩)
      · obtain ⟨e, he⟩ := hc.indexed hp
        exact ⟨e, get?_append_of_some he⟩
      · exact ⟨_, ht.id ▸ get?_append_self hg⟩
    · intro s
      rw [strand_append hg (hc.sound.scopeFor_room m)]
      split
      next => exact hc.gapless s
      next => exact hc.gapless s

/-- Events that are delivered in the order in which they happened are known. -/
theorem appendAll {hs : List Happening} {ms : List Message} (hc : c.Knows w P) (hw : w.Orderly)
    (hf : List.Forall₂ (w.Tells i) hs ms) (hm : ∀ h ∈ hs, h ∈ (w.room i).happenings)
    (hrising : hs.Pairwise (·.sequence < ·.sequence))
    (hbefore : ∀ h ∈ hs, ∀ h' ∈ (w.room i).happenings, h'.sequence < h.sequence →
      P i h' ∨ h' ∈ hs) :
    (c.appendAll (roomId i) ms).1.Knows w fun j x => P j x ∨ j = i ∧ x ∈ hs := by
  induction hf generalizing c P with
  | nil =>
    refine hc.of_iff fun j x => ⟨.inl, ?_⟩
    rintro (hp | ⟨-, hx⟩)
    · exact hp
    · cases hx
  | @cons h m hs ms ht _ ih =>
    obtain ⟨hfirst, hrest⟩ := List.pairwise_cons.1 hrising
    have hmem := hm h List.mem_cons_self
    have hone := hc.append hw hmem ht fun h' hm' hlt => by
      rcases hbefore h List.mem_cons_self h' hm' hlt with hp | hx
      · exact hp
      · rcases List.mem_cons.1 hx with rfl | hx
        · exact absurd hlt (Nat.lt_irrefl _)
        · exact absurd (hfirst h' hx) (Nat.lt_asymm hlt)
    have hall := ih hone (fun x hx => hm x (List.mem_cons_of_mem _ hx)) hrest
      fun x hx h' hm' hlt => by
        rcases hbefore x (List.mem_cons_of_mem _ hx) h' hm' hlt with hp | hx'
        · exact .inl (.inl hp)
        · rcases List.mem_cons.1 hx' with rfl | hx'
          · exact .inl (.inr ⟨rfl, rfl⟩)
          · exact .inr hx'
    simp only [Chronicle.appendAll, ht.room, if_true]
    refine hall.of_iff fun j x => ?_
    rw [List.mem_cons, and_or_left, or_assoc]

end Knows

end ReadTracking.Chronicle
