import ReadTracking.Proofs.Skipping

/-!
# The live edge stays read

Whoever looks at the newest messages of a room, or at the newest replies of a thread, has read that
scope through: all its messages, and all its gaps.  New messages are read as they come, and a
limited batch makes the scope read through even where it brought nothing new.  So until the user
looks elsewhere nothing in the scope is unread, whatever comes from the server.
-/

set_option autoImplicit false

namespace ReadTracking

variable {σ : Type}

/-! ## Scopes that are read through -/

/-- All messages of a scope are read, and all its gaps as soon as it has messages. -/
structure ReadThrough (c : Chronicle) (b : MarkerBook σ) (s : Scope) : Prop where
  messages : ∀ {id e}, c.get? id = some e → e.scope = s → b.covers s e.position.sequence = true
  gaps : ∀ {id e g}, c.get? id = some e → e.scope = s →
    (c.strand s).gaps.contains g = true → b.covers s g = true

namespace ReadThrough

variable {c c' : Chronicle} {b b' : MarkerBook σ} {s : Scope}

theorem mono (h : ReadThrough c b s)
    (he : ∀ {id e}, c'.get? id = some e → e.scope = s → c.get? id = some e)
    (hg : ∀ {g}, (c'.strand s).gaps.contains g = true → (c.strand s).gaps.contains g = true)
    (hb : ∀ q, b.covers s q = true → b'.covers s q = true) : ReadThrough c' b' s where
  messages hget hs := hb _ (h.messages (he hget hs) hs)
  gaps hget hs hgap := hb _ (h.gaps (he hget hs) hs (hg hgap))

/-- Reading up to the horizon reads through. -/
theorem of_horizon (hc : c.Sound)
    (h : ∀ u, Turn.horizon c s = some u → b.covers s u.sequence = true) : ReadThrough c b s := by
  cases hl : c.latest s with
  | none =>
    have hnone : ∀ {id e}, c.get? id = some e → e.scope ≠ s := hc.latest_eq_none hl
    exact ⟨fun he hs => absurd hs (hnone he), fun he hs => absurd hs (hnone he)⟩
  | some head =>
    obtain ⟨-, -, hlast⟩ := hc.latest_eq_some hl
    obtain ⟨u, hu, hhead, hgap⟩ : ∃ u, Turn.horizon c s = some u ∧
        head.position.sequence ≤ u.sequence ∧ ∀ gap, c.lastGap s = some gap → gap ≤ u.sequence := by
      refine ⟨_, by rw [Turn.horizon, hl]; rfl, ?_, fun gap hg => ?_⟩
      · dsimp only
        split <;> omega
      · simp only [hg]
        omega
    refine ⟨fun {id e} he hs => ?_, fun {_ _ g} _ _ hg => ?_⟩
    · have hle : e.position.sequence ≤ head.position.sequence := by
        apply Nat.le_of_not_lt
        intro hlt
        exact hlast he hs ((KeyOrder.pairBefore_iff _ _).2 (.inl hlt))
      exact MarkerBook.covers_of_le (Nat.le_trans hle hhead) (h u hu)
    · obtain ⟨v, hv⟩ := Table.contains_iff.1 hg
      cases hlast : (c.strand s).gaps.last? with
      | none => cases (Table.last?_eq_none_iff.1 hlast g).symm.trans hv
      | some entry =>
        obtain ⟨gap, w⟩ := entry
        have hle : g ≤ gap := Nat.le_of_not_lt ((Table.last?_eq_some_iff.1 hlast).2 g v hv)
        have hgap' : c.lastGap s = some gap := by
          rw [c.lastGap_eq, Strand.lastGap, hlast]
          rfl
        exact MarkerBook.covers_of_le (Nat.le_trans hle (hgap gap hgap')) (h u hu)

theorem countScope (h : ReadThrough c b s) (hc : c.Sound)
    (hgap : ∀ {g}, (c.strand s).gaps.contains g = true → ∃ id e, c.get? id = some e ∧ e.scope = s) :
    ReadTracking.countScope c b s = {} := by
  have hevents : c.eventsAfter s ((b.readTo s).map .past) = [] := by
    rw [c.eventsAfter_eq]
    have hafter : (c.strand s).after ((b.readTo s).map .past) = [] := by
      apply List.eq_nil_iff_forall_not_mem.2
      intro id hid
      obtain ⟨e, he, hs, hcut⟩ := hc.mem_after.1 hid
      obtain ⟨r, hr, hle⟩ := MarkerBook.covers_iff_readTo.1 (h.messages he hs)
      rw [hr] at hcut
      have hlt : r < e.position.sequence := of_decide_eq_true hcut
      omega
    rw [hafter]
    rfl
  have hgaps : c.hasGapAfter s (b.readTo s) = false := by
    rw [c.hasGapAfter_eq]
    -- A gap after the marker would be a gap that the marker covers.
    have hread : ∀ g, (c.strand s).gaps.contains g = true → ∃ r, b.readTo s = some r ∧ g ≤ r := by
      intro g hg
      obtain ⟨id, e, he, hs⟩ := hgap hg
      exact MarkerBook.covers_iff_readTo.1 (h.gaps he hs hg)
    cases hr : b.readTo s with
    | none =>
      simp only [Strand.hasGapAfter, Bool.not_eq_false', Table.isEmpty_iff]
      intro g
      apply Table.contains_eq_false_iff.1
      rw [← Bool.not_eq_true]
      intro hg
      obtain ⟨r, hr', -⟩ := hread g hg
      cases hr.symm.trans hr'
    | some r =>
      simp only [Strand.hasGapAfter, List.any_eq_false, decide_eq_true_eq]
      intro g hg hlt
      obtain ⟨r', hr', hle⟩ := hread g (Table.contains_iff.2 (Table.mem_keys.1 hg))
      cases hr.symm.trans hr'
      omega
  simp only [ReadTracking.countScope, hevents, hgaps]
  rfl

end ReadThrough

/-! ## Where the user looks -/

theorem Onward.covers {τ : Type} {b : MarkerBook σ} {b' : MarkerBook τ}
    (h : Onward b.marks b'.marks) {s : Scope} {q : Nat} (hq : b.covers s q = true) :
    b'.covers s q = true := by
  obtain ⟨v, hv⟩ := MarkerBook.covers_iff_reaches.1 hq
  exact MarkerBook.covers_iff_reaches.2 ⟨v, h.reaches hv⟩

theorem Turn.Grants.covers {ws : List Wish} {r r' : Turn σ} (h : r.Grants ws r') {s : Scope}
    {q : Nat} (hq : r.tracker.book.covers s q = true) : r'.tracker.book.covers s q = true := by
  refine Onward.covers ?_ hq
  rw [h.marks]
  exact Wish.onward_grantAll _ _ _

theorem Turn.Grants.awaited_eq_none {ws : List Wish} {r r' : Turn σ} (h : r.Grants ws r')
    (ha : r.tracker.awaited = none) : r'.tracker.awaited = none := by
  rw [Option.eq_none_iff_forall_ne_some]
  intro a ha'
  cases ha.symm.trans (h.awaited a ha')

namespace Turn

variable [Backing σ] (r : Turn σ)

theorem focus_read (u : Update) : (r.read u).tracker.focus = r.tracker.focus := by
  by_cases h : r.tracker.book.covers u.scope u.sequence = true
  · rw [r.read_of_covers h]
  · rw [r.read_of_not_covers h]

theorem focus_readToEnd (s : Scope) : (r.readToEnd s).tracker.focus = r.tracker.focus := by
  unfold readToEnd
  split
  · exact r.focus_read _
  · rfl

theorem focus_followLive (room : RoomId) (placed : List Placed) (limited : Bool) :
    (r.followLive room placed limited).tracker.focus = r.tracker.focus := by
  have step : ∀ (b : Bool) (s : Scope) (r : Turn σ),
      (if b then r.readToEnd s else r).tracker.focus = r.tracker.focus := by
    intro b s r
    cases b with
    | false => rfl
    | true => exact r.focus_readToEnd s
  simp only [followLive]
  split
  · rfl
  · split
    · split
      · exact step _ _ _
      · exact (step _ _ _).trans (step _ _ _)
    · rfl

omit [Backing σ] in
theorem focus_report_release (room : RoomId) :
    (r.report room).release.tracker.focus = r.tracker.focus := by
  obtain ⟨reported, notices, hr⟩ := r.report_eq room
  rw [hr]
  rfl

theorem covers_read (u : Update) : (r.read u).tracker.book.covers u.scope u.sequence = true := by
  by_cases h : r.tracker.book.covers u.scope u.sequence = true
  · rw [r.read_of_covers h]
    exact h
  · rw [r.read_of_not_covers h]
    exact (MarkerBook.covers_advance _ _ _ _ _ _).2 (.inr ⟨rfl, Nat.le_refl _⟩)

theorem readThrough_readToEnd (hc : r.tracker.chronicle.Sound) (s : Scope) :
    ReadThrough r.tracker.chronicle (r.readToEnd s).tracker.book s := by
  refine .of_horizon hc fun u hu => ?_
  have hs : u.scope = s := scope_of_horizon hu
  have hread : r.readToEnd s = r.read u := by simp only [readToEnd, hu]
  rw [hread, ← hs]
  exact r.covers_read u

/-- Following the scope that is looked at reads it through, if the batch touched it or it was read
through before. -/
theorem readThrough_followLive (hc : r.tracker.chronicle.Sound) {s : Scope}
    (hf : r.tracker.focus = some ⟨s.room, s.thread, true⟩) (placed : List Placed) (limited : Bool)
    (h : limited = true ∨ (∃ p ∈ placed, p.scope = s) ∨
      ReadThrough r.tracker.chronicle r.tracker.book s) :
    ReadThrough r.tracker.chronicle (r.followLive s.room placed limited).tracker.book s := by
  obtain ⟨ws, -, hgrants⟩ := r.grants_followLive s.room placed limited
  by_cases htouched : (limited || placed.any fun p => p.scope == s) = true
  case neg =>
    simp only [Bool.or_eq_true, List.any_eq_true, beq_iff_eq, not_or] at htouched
    have hread := (h.resolve_left htouched.1).resolve_left htouched.2
    exact hread.mono (fun he _ => he) (fun hg => hg) fun _ hq => hgrants.covers hq
  obtain ⟨room, thread⟩ := s
  cases thread with
  | none =>
    have heq : r.followLive room placed limited = r.readToEnd (.ofRoom room) := by
      simp only [followLive, hf, and_self, if_true]
      exact if_pos htouched
    rw [heq]
    exact r.readThrough_readToEnd hc _
  | some root =>
    obtain ⟨r', hgrants', heq⟩ : ∃ r', (∃ ws, r.Grants ws r') ∧
        r.followLive room placed limited = r'.readToEnd (.ofThread room root) := by
      simp only [followLive, hf, and_self, if_true]
      refine ⟨_, ?_, if_pos htouched⟩
      split
      · obtain ⟨ws, -, h⟩ := r.grants_readToEnd (.ofRoom room)
        exact ⟨ws, h⟩
      · exact ⟨[], .refl r⟩
    obtain ⟨ws', hgrants'⟩ := hgrants'
    have hread := r'.readThrough_readToEnd (hgrants'.chronicle ▸ hc) (.ofThread room root)
    rw [heq, ← hgrants'.chronicle]
    exact hread

end Turn

/-- The user looks elsewhere than at a scope, or the room of the scope is forgotten or brings older
messages.  A jump or a look at a thread that is refused leads nowhere. -/
def Moment.leaves (s : Scope) (a : Answer σ) : Moment → Bool
  | .command (.viewRoom _) | .command .leave => true
  | .command (.viewThread _ _) | .command (.jump _ _ _) => a.reply.isOk
  | .command .closeThread => s.thread.isSome
  | .command (.forget room) | .command (.backfill room _ _) => room == s.room
  | .command (.markRoomRead _) | .command (.supply _ _) | .command (.receive _ _ _)
  | .command (.receipt _ _ _ _ _) | .command (.sendFailed _ _ _) | .command (.tick _)
  | .surroundings _ | .subscribe | .unsubscribe _ => false

def Command.steers : Command → Bool
  | .viewRoom _ | .viewThread _ _ | .closeThread | .leave | .jump _ _ _ | .supply _ _
  | .forget _ => true
  | .markRoomRead _ | .receive _ _ _ | .backfill _ _ _ | .receipt _ _ _ _ _ | .sendFailed _ _ _
  | .tick _ => false

theorem Chronicle.Sound.exists_of_known {c : Chronicle} (hc : c.Sound) {room : RoomId}
    {root : EventId} (h : (c.rootKnown room root || c.hasThread room root) = true) :
    ∃ id e, c.get? id = some e ∧ e.message.room = room ∧
      (id = root ∨ e.scope = .ofThread room root) := by
  rcases (Bool.or_eq_true _ _).mp h with hroot | hthread
  · unfold Chronicle.rootKnown at hroot
    split at hroot
    · cases hroot
    · exact ⟨root, _, ‹_›, beq_iff_eq.1 hroot, .inl rfl⟩
  · obtain ⟨id, e, he, hs⟩ := hc.hasThread_iff.1 hthread
    refine ⟨id, e, he, ?_, .inr hs⟩
    rw [← hc.housed he, hs]
    rfl

namespace Tracker

structure AtEdge (t : Tracker σ) (s : Scope) : Prop where
  focus : t.focus = some ⟨s.room, s.thread, true⟩
  awaited : t.awaited = none
  read : ReadThrough t.chronicle t.book s
  known : ∀ root, s.thread = some root →
    ∃ id e, t.chronicle.get? id = some e ∧ e.message.room = s.room ∧ (id = root ∨ e.scope = s)

variable [Backing σ] {t : Tracker σ} {s : Scope}

/-! ## What a command leaves in place -/

theorem get?_handle_of_some (hc : t.chronicle.Sound) {c : Command} {id : EventId} {e : Indexed}
    (hf : c ≠ .forget e.message.room) (he : t.chronicle.get? id = some e) :
    (t.handle c).tracker.chronicle.get? id = some e := by
  rcases t.forget_or_conducts c with ⟨room, rfl⟩ | ⟨ws, place, hconduct⟩
  · have hne : e.message.room ≠ room := fun h => hf (h ▸ rfl)
    show (t.forget room).tracker.chronicle.get? id = some e
    rw [chronicle_forget, hc.get?_forget, he, Option.filter_some, if_pos (bne_iff_ne.2 hne)]
  · rw [hconduct.grants.chronicle]
    exact get?_loaded_of_some he c

theorem tracker_viewThread_of_refused {room : RoomId} {root : EventId}
    (h : (t.viewThread room root).reply.isOk = false) :
    (t.viewThread room root).tracker = t := by
  unfold viewThread at h ⊢
  dsimp only at h ⊢
  split at h
  · cases h
  · rw [if_neg ‹_›]
    rfl

theorem tracker_jump_of_refused {room : RoomId} {event : EventId} {includeThreads : Bool}
    (h : (t.jump room event includeThreads).reply.isOk = false) :
    (t.jump room event includeThreads).tracker = t := by
  unfold jump at h ⊢
  dsimp only at h ⊢
  split at h
  · rfl
  · split at h
    · cases h
    · cases h

theorem focus_handle {c : Command} (h : c.steers = false) :
    (t.handle c).tracker.focus = t.focus := by
  cases c with
  | viewRoom | viewThread | closeThread | leave | jump | supply | forget => cases h
  | markRoomRead room =>
    refine (Turn.focus_report_release _ room).trans ?_
    rw [Turn.readAll_eq]
  | receive room messages limited =>
    refine (Turn.focus_report_release _ room).trans ((Turn.focus_followLive _ _ _ _).trans ?_)
    exact (Turn.aside_afterPlacing _ _).focus
  | backfill room messages filled =>
    exact (Turn.focus_report_release _ room).trans (Turn.aside_afterPlacing _ _).focus
  | receipt room user event v reach =>
    simp only [handle, receipt]
    split
    · split
      · exact (Turn.focus_report_release _ _).trans (Turn.aside_applyReceipt _ _ _ _).focus
      · exact (Turn.aside_hold _ _ _ _ _).focus
    · rfl
  | sendFailed scope event reason => rfl
  | tick now =>
    show (t.tick now).tracker.focus = t.focus
    rw [t.tick_eq]
    rfl

theorem AtEdge.focus_handle (h : t.AtEdge s) {c : Command}
    (hl : (Moment.command c).leaves s (t.handle c) = false) :
    (t.handle c).tracker.focus = t.focus := by
  cases c with
  | markRoomRead | receive | backfill | receipt | sendFailed | tick =>
    exact Tracker.focus_handle rfl
  | viewRoom room => cases hl
  | leave => cases hl
  | viewThread room root =>
    exact congrArg Tracker.focus (tracker_viewThread_of_refused hl)
  | jump room event includeThreads =>
    exact congrArg Tracker.focus (tracker_jump_of_refused hl)
  | closeThread =>
    have hmain : s.thread = none := Option.isNone_iff_eq_none.1 (Option.isSome_eq_false_iff.1 hl)
    show t.focus.map _ = t.focus
    rw [h.focus, hmain]
    rfl
  | supply request messages =>
    simp only [handle, supply, h.awaited, Turn.done]
  | forget room =>
    simp only [handle, forget]
    split
    · rfl
    · have hne : s.room ≠ room := (beq_eq_false_iff_ne.1 hl).symm
      show t.focus.filter _ = t.focus
      rw [h.focus, Option.filter_some, if_pos (bne_iff_ne.2 hne)]

theorem AtEdge.awaited_handle (h : t.AtEdge s) {c : Command}
    (hl : (Moment.command c).leaves s (t.handle c) = false) :
    (t.handle c).tracker.awaited = none := by
  rcases t.forget_or_conducts c with ⟨room, rfl⟩ | ⟨ws, place, hconduct⟩
  · simp only [handle, forget]
    split
    · exact h.awaited
    · simp only [Turn.done, h.awaited, Option.filter_none]
  rw [Option.eq_none_iff_forall_ne_some]
  intro a ha
  rcases hconduct.awaited a ha with hold | htarget
  · cases h.awaited.symm.trans hold
  -- Only an accepted jump awaits an answer, and it leaves.
  · cases c with
    | jump room event includeThreads =>
      rw [show (t.handle (.jump room event includeThreads)).tracker = t from
        tracker_jump_of_refused hl, h.awaited] at ha
      cases ha
    | supply request messages =>
      simp only [target?, h.awaited, Option.filter_none, Option.map_none] at htarget
      cases htarget
    | markRoomRead | viewRoom | viewThread | closeThread | leave | receive | backfill | receipt
    | sendFailed | forget | tick => cases htarget

theorem AtEdge.read_handle (h : t.AtEdge s) (hc : t.chronicle.Sound) {c : Command}
    (hf : ∀ room, c ≠ .forget room) (hb : ∀ b, t.batch? c = some b → b.room ≠ s.room) :
    ReadThrough (t.handle c).tracker.chronicle (t.handle c).tracker.book s := by
  obtain ⟨ws, place, hconduct⟩ := t.conducts c hf
  have honward : Onward t.book.marks (t.handle c).tracker.book.marks :=
    onward_meet (m := .command c) (by simpa using hf)
  rw [hconduct.grants.chronicle]
  cases hbatch : t.batch? c with
  | none =>
    rw [loaded_eq_self hbatch]
    exact h.read.mono (fun he _ => he) (fun hg => hg) fun _ hq => honward.covers hq
  | some b =>
    have hne : s.room ≠ b.room := (hb b hbatch).symm
    rw [loaded_eq hbatch]
    refine h.read.mono (fun {id e} he hs => ?_) (fun {g} hg => ?_) fun _ hq => honward.covers hq
    · rcases Chronicle.of_get?_take he with hold | ⟨-, -, hroom⟩
      · exact hold
      · have hhoused : e.scope.room = e.message.room := hc.take.housed he
        rw [hs, hroom] at hhoused
        exact absurd hhoused hne
    · have hstrand : (t.chronicle.take b).1.strand s = t.chronicle.strand s := by
        rw [Chronicle.strand, Chronicle.log_take_of_ne hne, Chronicle.strand]
      rwa [hstrand] at hg

theorem AtEdge.read_receive (h : t.AtEdge s) (hc : t.chronicle.Sound) (messages : List Message)
    (limited : Bool) : ReadThrough (t.receive s.room messages limited).tracker.chronicle
      (t.receive s.room messages limited).tracker.book s := by
  let c : Command := .receive s.room messages limited
  have hsound : (t.loaded c).chronicle.Sound := sound_loaded hc c
  let r : Turn σ := ({ tracker := t.loaded c } : Turn σ).afterPlacing (t.placed c)
  have haside := Turn.aside_afterPlacing { tracker := t.loaded c } (t.placed c)
  have hchronicle : r.tracker.chronicle = (t.loaded c).chronicle := haside.chronicle
  have hread := r.readThrough_followLive (hchronicle ▸ hsound) (haside.focus.trans h.focus)
    (t.placed c) limited ?_
  · obtain ⟨ws, -, hgrants⟩ := r.grants_followLive s.room (t.placed c) limited
    obtain ⟨reported, notices, hr⟩ := (r.followLive s.room (t.placed c) limited).report_eq s.room
    have hend : t.receive s.room messages limited =
        (((r.followLive s.room (t.placed c) limited).report s.room).release).done := rfl
    rw [hend, hr]
    exact hgrants.chronicle.symm ▸ hread
  by_cases htouched : limited = true ∨ ∃ p ∈ t.placed c, p.scope = s
  · exact htouched.imp_right .inl
  -- A batch that did not touch the scope brought it neither messages nor gaps.
  · refine .inr (.inr ?_)
    simp only [not_or, not_exists, not_and] at htouched
    obtain ⟨hlimited, hplaced⟩ := htouched
    rw [hchronicle]
    refine h.read.mono (fun {id e} he hs => ?_) (fun {g} hg => ?_) (haside.covers s)
    · cases hold : t.chronicle.get? id with
      | some e' => exact (get?_loaded_of_some hold c).symm.trans he
      | none =>
        obtain ⟨p, hp, rfl⟩ := List.mem_map.1 ((mem_placed_iff hc).2 ⟨hold, e, he⟩)
        obtain ⟨e', he', hscope, -⟩ := Chronicle.has_take p hp
        cases he'.symm.trans he
        exact absurd (hscope.symm.trans hs) (hplaced p hp)
    · have hgaps := hc.gaps_take (b := ⟨s.room, messages, limited, none⟩)
        (by simpa using hlimited) rfl s
      rwa [← hgaps]

theorem AtEdge.read_forget (h : t.AtEdge s) (hc : t.chronicle.Sound) {room : RoomId}
    (hne : s.room ≠ room) : ReadThrough (t.forget room).tracker.chronicle
      (t.forget room).tracker.book s := by
  have hbook : (t.forget room).tracker.book = (t.book.forget room).1 := by
    simp only [forget]
    split <;> simp only [*, Turn.done, Turn.refused]
  rw [chronicle_forget, hbook]
  refine h.read.mono (fun {id e} he hs => ?_) (fun {g} hg => ?_) fun q hq => ?_
  · rw [hc.get?_forget, Option.filter_eq_some_iff] at he
    exact he.1
  · rwa [Chronicle.strand_forget, if_neg hne] at hg
  · obtain ⟨v, m, hm, hle⟩ := MarkerBook.covers_iff.1 hq
    refine MarkerBook.covers_iff.2 ⟨v, m, ?_, hle⟩
    show (t.book.marks.filter _).get? _ = _
    have hm : t.book.marks.get? ⟨s, v⟩ = some m := hm
    rw [Table.get?_filter, hm, Option.filter_some, if_pos (bne_iff_ne.2 hne)]

theorem AtEdge.handle (h : t.AtEdge s) (hc : t.chronicle.Sound) {c : Command}
    (hl : (Moment.command c).leaves s (t.handle c) = false) : (t.handle c).tracker.AtEdge s := by
  refine ⟨(h.focus_handle hl).trans h.focus, h.awaited_handle hl, ?_, fun root hroot => ?_⟩
  · cases c with
    | forget room => exact h.read_forget hc (beq_eq_false_iff_ne.1 hl).symm
    | receive room messages limited =>
      by_cases hroom : room = s.room
      · subst hroom
        exact h.read_receive hc messages limited
      · refine h.read_handle hc (fun _ he => (by cases he)) fun b hb => ?_
        cases hb
        exact hroom
    | backfill room messages filled =>
      refine h.read_handle hc (fun _ he => (by cases he)) fun b hb => ?_
      cases hb
      exact beq_eq_false_iff_ne.1 hl
    | supply request messages =>
      refine h.read_handle hc (fun _ he => (by cases he)) fun b hb => ?_
      simp only [batch?, h.awaited, Option.filter_none, Option.map_none] at hb
      cases hb
    | markRoomRead | viewRoom | viewThread | closeThread | leave | jump | receipt | sendFailed
    | tick => exact h.read_handle hc (fun _ he => (by cases he)) fun b hb => (by cases hb)
  · obtain ⟨id, e, he, hr, hid⟩ := h.known root hroot
    refine ⟨id, e, get?_handle_of_some hc ?_ he, hr, hid⟩
    rintro rfl
    exact beq_eq_false_iff_ne.1 hl hr

/-- As long as nothing makes the user leave, the scope stays read through. -/
theorem AtEdge.meet (h : t.AtEdge s) (hc : t.chronicle.Sound) {m : Moment}
    (hl : m.leaves s (t.meet m) = false) : (t.meet m).tracker.AtEdge s := by
  cases m with
  | command c => exact h.handle hc hl
  | surroundings | subscribe | unsubscribe => exact ⟨h.focus, h.awaited, h.read, h.known⟩

def Stays (t : Tracker σ) (s : Scope) (ms : List Moment) : Prop :=
  ∀ x ∈ ms.zip (t.answers ms), x.1.leaves s x.2 = false

instance (t : Tracker σ) (s : Scope) (ms : List Moment) : Decidable (t.Stays s ms) :=
  inferInstanceAs (Decidable (∀ x ∈ ms.zip (t.answers ms), x.1.leaves s x.2 = false))

theorem AtEdge.after (h : t.AtEdge s) (hc : t.chronicle.Sound) {ms : List Moment}
    (hl : t.Stays s ms) : (t.after ms).AtEdge s := by
  induction ms generalizing t with
  | nil => exact h
  | cons m ms ih =>
    obtain ⟨hnow, hlater⟩ := List.forall_mem_cons.1 hl
    exact ih (h.meet hc hnow) (sound_meet hc m) hlater

/-! ## Looking at a scope -/

omit [Backing σ] in
theorem AtEdge.report {r : Turn σ} (h : r.tracker.AtEdge s) (room : RoomId) :
    (r.report room).release.tracker.AtEdge s := by
  obtain ⟨reported, notices, hr⟩ := r.report_eq room
  rw [hr]
  exact ⟨h.focus, h.awaited, h.read, h.known⟩

theorem AtEdge.read_more {r : Turn σ} (h : r.tracker.AtEdge s) (u : Update) :
    (r.read u).tracker.AtEdge s := by
  obtain ⟨ws, -, hgrants⟩ := r.grants_read u
  refine ⟨(r.focus_read u).trans h.focus, hgrants.awaited_eq_none h.awaited, ?_, ?_⟩
  · rw [hgrants.chronicle]
    exact h.read.mono (fun he _ => he) (fun hg => hg) fun _ hq => hgrants.covers hq
  · rw [hgrants.chronicle]
    exact h.known

theorem atEdge_readToEnd {r : Turn σ} (hc : r.tracker.chronicle.Sound)
    (hf : r.tracker.focus = some ⟨s.room, s.thread, true⟩) (ha : r.tracker.awaited = none)
    (hk : ∀ root, s.thread = some root → ∃ id e, r.tracker.chronicle.get? id = some e ∧
      e.message.room = s.room ∧ (id = root ∨ e.scope = s)) : (r.readToEnd s).tracker.AtEdge s := by
  obtain ⟨ws, -, hgrants⟩ := r.grants_readToEnd s
  refine ⟨(r.focus_readToEnd s).trans hf, hgrants.awaited_eq_none ha, ?_, ?_⟩
  · rw [hgrants.chronicle]
    exact r.readThrough_readToEnd hc s
  · rw [hgrants.chronicle]
    exact hk

theorem atEdge_viewRoom (hc : t.chronicle.Sound) (room : RoomId) :
    (t.viewRoom room).tracker.AtEdge (.ofRoom room) := by
  refine AtEdge.report (atEdge_readToEnd hc rfl rfl ?_) room
  intro root hroot
  cases hroot

theorem atEdge_viewThread (hc : t.chronicle.Sound) {room : RoomId} {root : EventId}
    (h : (t.viewThread room root).reply.isOk = true) :
    (t.viewThread room root).tracker.AtEdge (.ofThread room root) := by
  by_cases hk : (t.chronicle.rootKnown room root || t.chronicle.hasThread room root) = true
  case neg =>
    rw [show t.viewThread room root = _ from if_neg hk] at h
    cases h
  let r₀ : Turn σ :=
    { tracker := { t with awaited := none, focus := some ⟨room, some root, true⟩ } }
  have hedge : (r₀.readToEnd (.ofThread room root)).tracker.AtEdge (.ofThread room root) := by
    refine atEdge_readToEnd hc rfl rfl fun root' hroot => ?_
    cases hroot
    exact hc.exists_of_known hk
  rw [show t.viewThread room root = _ from if_pos hk]
  refine AtEdge.report ?_ room
  split
  · exact hedge.read_more _
  · exact hedge

/-! ## What is unread there -/

omit [Backing σ] in
theorem AtEdge.countScope (h : t.AtEdge s) (hc : t.chronicle.Sound)
    (hm : s.thread = none → ∃ id e, t.chronicle.get? id = some e ∧ e.scope = s) :
    ReadTracking.countScope t.chronicle t.book s = {} := by
  refine h.read.countScope hc fun {g} hg => ?_
  obtain ⟨room, thread⟩ := s
  cases thread with
  | none => exact hm rfl
  | some root => exact hc.hasThread_iff.1 (Chronicle.hasThread_of_gap hg)

omit [Backing σ] in
theorem AtEdge.threadState {room : RoomId} {root : EventId} (h : t.AtEdge (.ofThread room root))
    (hc : t.chronicle.Sound) : ∃ state, t.threadState room root = some state ∧
      state.unread = 0 ∧ state.highlights = 0 ∧ state.incomplete = false := by
  have hcount := h.countScope hc fun hnone => (by cases hnone)
  unfold Tracker.threadState ReadTracking.threadState
  rw [hcount]
  by_cases hk : t.chronicle.rootKnown room root = true
  · rw [if_pos hk]
    exact ⟨_, rfl, rfl, rfl, rfl⟩
  rw [if_neg hk]
  have hthread : t.chronicle.hasThread room root = true := by
    obtain ⟨id, e, he, hr, rfl | hs⟩ := h.known root rfl
    · refine absurd ?_ hk
      simp only [Chronicle.rootKnown, he]
      exact beq_iff_eq.2 hr
    · exact hc.hasThread_iff.2 ⟨id, e, he, hs⟩
  rw [if_pos hthread]
  exact ⟨_, rfl, rfl, rfl, rfl⟩

/-- From a look at a room on, as long as the user stays there, the room is not forgotten and brings
no older messages, its main timeline has nothing unread and no gap after its marker once it has a
message.  And from a look at a thread on, as long as the user moreover keeps it open, the thread has
nothing unread and is not incomplete. -/
theorem live_edge_stays_read {ambient : Ambient} {policy : Policy} {reader : UserId} {s : σ}
    {t : Tracker σ} (ht : (openOver ambient policy reader s).1 = .ok t) (past : List Moment) :
    (∀ room ms,
      let there := ((t.after past).handle (.viewRoom room)).tracker
      let later := there.after ms
      there.Stays (.ofRoom room) ms →
      (∃ id e, later.chronicle.get? id = some e ∧ e.scope = .ofRoom room) →
      (later.roomState room).mainUnread = 0 ∧ (later.roomState room).mainHighlights = 0 ∧
        later.chronicle.hasGapAfter (.ofRoom room) (later.book.readTo (.ofRoom room)) = false) ∧
    ∀ room root ms,
      let look := (t.after past).handle (.viewThread room root)
      look.reply.isOk = true → look.tracker.Stays (.ofThread room root) ms →
      ∃ state, (look.tracker.after ms).threadState room root = some state ∧
        state.unread = 0 ∧ state.highlights = 0 ∧ state.incomplete = false := by
  obtain ⟨book, rfl, -⟩ := eq_fresh_of_openOver ht
  have hsound : ((fresh ambient policy reader book).after past).chronicle.Sound :=
    sound_after (Chronicle.sound_empty _) past
  refine ⟨fun room ms => ?_, fun room root ms => ?_⟩
  · intro there later hstays hmessage
    have hthere : there.chronicle.Sound := sound_meet hsound (.command (.viewRoom room))
    have hedge : later.AtEdge (.ofRoom room) :=
      (atEdge_viewRoom hsound room).after hthere hstays
    have hcount := hedge.countScope (sound_after hthere ms) fun _ => hmessage
    exact ⟨congrArg ScopeCount.unread hcount, congrArg ScopeCount.highlights hcount,
      congrArg ScopeCount.incomplete hcount⟩
  · intro look hok hstays
    have hthere : look.tracker.chronicle.Sound :=
      sound_meet hsound (.command (.viewThread room root))
    have hedge := (atEdge_viewThread hsound hok).after hthere hstays
    exact hedge.threadState (sound_after hthere ms)

/-- A room is watched while messages come, some of them after a skipped stretch and only in a
thread, and a jump is refused; then its thread is watched, and another answer comes after a skipped
stretch. -/
theorem live_edge_stays_read_in_a_room :
    let room : RoomId := ⟨"!r"⟩
    let said (id : String) (q : Nat) (content : Content) : Message :=
      ⟨⟨id⟩, room, ⟨"@bot"⟩, q, content, true⟩
    let receive (ms : List Message) (limited : Bool) : Moment :=
      .command (.receive room ms limited)
    let t : Tracker Shelf := fresh .counting {} ⟨"@me"⟩ ⟨.empty, .empty, .empty⟩
    let u := t.after [receive [said "$1" 1 .plain, said "$2" 2 (.threadReply ⟨"$1"⟩)] false]
    let watch := [receive [said "$3" 3 .plain] false,
      receive [said "$9" 9 (.threadReply ⟨"$1"⟩)] true, .command (.jump room ⟨"$2"⟩ false),
      .command (.tick 5000)]
    let v := (u.handle (.viewRoom room)).tracker.after watch
    let look := u.handle (.viewThread room ⟨"$1"⟩)
    (v.roomState room).mainUnread = 0 ∧ (v.roomState room).mainHighlights = 0 ∧
      v.chronicle.hasGapAfter (.ofRoom room) (v.book.readTo (.ofRoom room)) = false ∧
      (v.threadState room ⟨"$1"⟩).map (·.unread) = some 2 ∧
      ∃ state, (look.tracker.after watch).threadState room ⟨"$1"⟩ = some state ∧
        state.unread = 0 ∧ state.highlights = 0 ∧ state.incomplete = false := by
  intro room said receive t u watch v look
  have ht : (openOver .counting {} ⟨"@me"⟩ Shelf.empty).1 = .ok t := rfl
  obtain ⟨hroom, hthread⟩ := live_edge_stays_read ht
    [receive [said "$1" 1 .plain, said "$2" 2 (.threadReply ⟨"$1"⟩)] false]
  have hmessage : (v.chronicle.get? ⟨"$1"⟩).map (·.scope) = some (.ofRoom room) := by
    decide +kernel
  obtain ⟨e, he, hs⟩ := Option.map_eq_some_iff.1 hmessage
  obtain ⟨hunread, hhighlights, hgap⟩ := hroom room watch (by decide +kernel) ⟨_, e, he, hs⟩
  refine ⟨hunread, hhighlights, hgap, by decide +kernel, ?_⟩
  exact hthread room ⟨"$1"⟩ watch (by decide +kernel) (by decide +kernel)

end Tracker

end ReadTracking
