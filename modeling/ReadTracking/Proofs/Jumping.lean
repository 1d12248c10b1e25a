import ReadTracking.Proofs.Navigating

/-!
# Jumps to messages of other rooms

A jump finds its message by name, whichever room it is indexed in, and reads the scope of the
message, but looks at the room that it was asked for.  So it keeps to that room if the message is
indexed there, or if the message is read and a thread of its name is in that room too.  Otherwise
it reads a scope of another room, or opens a thread that is not there.
-/

set_option autoImplicit false

namespace ReadTracking

variable {σ : Type}

namespace Tracker

/-- Outside of a room a tracker goes on as another one, and the user looks at the room. -/
structure ConfinedTo (t : Tracker σ) (room : RoomId) (t' : Tracker σ) : Prop where
  marks : ∀ s v, s.room ≠ room → t'.book.mark? s v = t.book.mark? s v
  rooms : ∀ room', room' ≠ room → t'.roomState room' = t.roomState room' ∧
    ∀ root, t'.threadState room' root = t.threadState room' root
  focus : ∃ f, t'.focus = some f ∧ f.room = room ∧
    ∀ root, f.thread = some root → t'.chronicle.hasThread room root = true

theorem ReadsTo.confinedTo {t t' : Tracker σ} {us : List Update} {room : RoomId}
    (h : t.ReadsTo us t') (hroom : ∀ u ∈ us, u.scope.room = room)
    {thread : Option EventId} {live : Bool} (hfocus : t'.focus = some ⟨room, thread, live⟩)
    (hthread : ∀ root, thread = some root → t.chronicle.hasThread room root = true) :
    t.ConfinedTo room t' where
  marks := by
    intro s v hs
    apply h.kept
    rintro u hu rfl
    exact absurd (hroom u hu) hs
  rooms := h.elsewhere hroom
  focus := by
    refine ⟨_, hfocus, rfl, ?_⟩
    rw [h.chronicle]
    exact hthread

variable [Backing σ] {t : Tracker σ} {c : Command} {room : RoomId} {event : EventId}

/-! ## Where the user looks while a jump waits -/

def LooksAhead (t : Tracker σ) : Prop :=
  ∀ a, t.awaited = some a → t.focus = some ⟨a.room, none, false⟩

omit [Backing σ] in
theorem looksAhead_of_awaited_eq_none (h : t.awaited = none) : t.LooksAhead := by
  intro a ha
  cases h.symm.trans ha

theorem focus_of_asks {m : Moment} {a : Awaited} (h : t.Asks m a) :
    (t.meet m).tracker.focus = some ⟨a.room, none, false⟩ := by
  have hm := h.1
  subst hm
  obtain ⟨hbar, hnone, -⟩ := asks_jump_iff.1 h
  show (t.jump a.room a.event a.includeThreads).tracker.focus = _
  simp only [jump, hbar, hnone]
  rfl

theorem focus_of_not_ends {m : Moment} {a : Awaited} (h : ¬ t.Ends a m)
    (ha : t.awaited = some a) (hfocus : t.focus = some ⟨a.room, none, false⟩) :
    (t.meet m).tracker.focus = t.focus := by
  cases m with
  | surroundings | subscribe | unsubscribe => rfl
  | command c =>
    cases c with
    | viewRoom | leave => exact absurd trivial h
    | markRoomRead | receive | backfill | receipt | sendFailed | tick => exact focus_handle rfl
    | viewThread room root =>
      exact congrArg Tracker.focus (tracker_viewThread_of_refused (Answer.isOk_eq_false h))
    | jump room event includeThreads =>
      exact congrArg Tracker.focus (tracker_jump_of_refused (Answer.isOk_eq_false h))
    | closeThread =>
      show t.focus.map _ = t.focus
      rw [hfocus]
      rfl
    | supply request messages =>
      have hother : ∀ a', t.awaited = some a' → a'.request ≠ request := by
        rintro a' ha' rfl
        cases ha.symm.trans ha'
        exact h rfl
      exact congrArg (fun a => a.tracker.focus) (supply_eq_idle hother messages)
    | forget room =>
      show (t.forget room).tracker.focus = t.focus
      unfold forget
      split
      next => rfl
      next n hforget =>
        have hne : a.room ≠ room := by
          rintro rfl
          exact h ⟨rfl, accepted_forget.2 ⟨n, congrArg Prod.snd hforget⟩⟩
        show t.focus.filter _ = t.focus
        rw [hfocus, Option.filter_some, if_pos (bne_iff_ne.2 hne)]

/-- A jump that still waits asked, and since then the user went nowhere else. -/
theorem looksAhead_meet (h : t.LooksAhead) (m : Moment) : (t.meet m).tracker.LooksAhead := by
  intro a ha
  rcases awaited_meet_iff.1 ha with ⟨hwaited, hends⟩ | hasks
  · rw [focus_of_not_ends hends hwaited (h a hwaited)]
    exact h a hwaited
  · exact focus_of_asks hasks

theorem looksAhead_after (h : t.LooksAhead) (ms : List Moment) : (t.after ms).LooksAhead :=
  after_keeps h fun m _ _ hu => looksAhead_meet hu m

/-! ## How a jump goes -/

def informed (t : Tracker σ) (c : Command) : Tracker σ :=
  (({ tracker := { t.loaded c with awaited := none } } : Turn σ).afterPlacing (t.placed c)).tracker

theorem chronicle_informed (t : Tracker σ) (c : Command) :
    (t.informed c).chronicle = (t.loaded c).chronicle :=
  (Turn.aside_afterPlacing _ _).chronicle

theorem focus_informed (t : Tracker σ) (c : Command) : (t.informed c).focus = t.focus := by
  obtain ⟨chronicle, hloaded⟩ := t.loaded_with c
  refine (Turn.aside_afterPlacing _ _).focus.trans ?_
  rw [hloaded]

inductive Goes (t : Tracker σ) (room : RoomId) (event : EventId) (a : Answer σ) : Prop where
  | lands {r : Turn σ} {e : Indexed} (start : r.tracker = t)
    (found : t.chronicle.get? event = some e)
    (answer : a = (((r.land room e).report room).release).done)
  | misses (missing : t.chronicle.get? event = none) (accepted : a.Accepted)
    (chronicle : a.tracker.chronicle = t.chronicle) (book : a.tracker.book = t.book)
    (focus : a.tracker.focus = some ⟨room, none, false⟩)
  | refused {e : Indexed} (found : t.chronicle.get? event = some e) (refused : ¬ a.Accepted)
    (chronicle : a.tracker.chronicle = t.chronicle) (book : a.tracker.book = t.book)
    (focus : a.tracker.focus = t.focus)

theorem goes_jump (includeThreads : Bool) : ({ t with awaited := none } : Tracker σ).Goes room event
    (t.jump room event includeThreads) := by
  cases hbar : Turn.barrier t.chronicle event includeThreads with
  | some root =>
    obtain ⟨e, he, -⟩ := barrier_eq_some hbar
    simp only [jump, hbar]
    exact .refused he (Turn.not_accepted_refused _ _) rfl rfl rfl
  | none =>
    cases he : t.chronicle.get? event with
    | some e => exact .lands rfl he (jump_eq_land hbar he room)
    | none =>
      simp only [jump, hbar, he]
      exact .misses he ⟨_, rfl⟩ rfl rfl rfl

theorem supply_eq {a : Awaited} (ha : t.awaited = some a) (messages : List Message) :
    ∃ r : Turn σ, r.tracker = t.informed (.supply a.request messages) ∧
      t.supply a.request messages =
        match Turn.barrier r.tracker.chronicle a.event a.includeThreads with
        | some root => ((r.report a.room).release).refused (.inThread a.event root)
        | none =>
          let r := match r.tracker.chronicle.get? a.event with
            | some e => r.land a.room e
            | none => r
          ((r.report a.room).release).done := by
  have hbatch := batch?_supply ha messages
  obtain ⟨r, hr⟩ : ∃ r : Turn σ, r = Turn.afterPlacing
      { tracker := { t with
        chronicle := (t.chronicle.ingest a.room messages false).1, awaited := none } }
      (t.chronicle.ingest a.room messages false).2 := ⟨_, rfl⟩
  have hchronicle : r.tracker.chronicle = (t.chronicle.ingest a.room messages false).1 := by
    rw [hr]
    exact (Turn.aside_afterPlacing _ _).chronicle
  refine ⟨r, ?_, ?_⟩
  · unfold informed
    rw [hr, loaded_eq hbatch, placed_eq hbatch]
    rfl
  · rw [hchronicle, hr]
    unfold supply
    rw [ha]
    exact if_pos rfl

theorem goes_supply (h : t.LooksAhead) {a : Awaited} (ha : t.awaited = some a)
    (messages : List Message) : (t.informed (.supply a.request messages)).Goes a.room a.event
      (t.supply a.request messages) := by
  obtain ⟨r, hr, hsupply⟩ := supply_eq ha messages
  have hreport : (r.report a.room).release.tracker.chronicle = r.tracker.chronicle ∧
      (r.report a.room).release.tracker.book = r.tracker.book := by
    obtain ⟨reported, notices, hreport⟩ := r.report_eq a.room
    rw [hreport]
    exact ⟨rfl, rfl⟩
  have hfocus := r.focus_report_release a.room
  rw [hsupply, ← hr]
  cases hbar : Turn.barrier r.tracker.chronicle a.event a.includeThreads with
  | some root =>
    obtain ⟨e, he, -⟩ := barrier_eq_some hbar
    exact .refused he (Turn.not_accepted_refused _ _) hreport.1 hreport.2 hfocus
  | none =>
    cases he : r.tracker.chronicle.get? a.event with
    | some e => exact .lands rfl he rfl
    | none =>
      have hahead : r.tracker.focus = some ⟨a.room, none, false⟩ := by
        rw [hr, focus_informed]
        exact h a ha
      exact .misses he ⟨_, rfl⟩ hreport.1 hreport.2 (hfocus.trans hahead)

theorem goes_of_target? (h : t.LooksAhead) (hjump : t.target? c = some (room, event)) :
    (t.informed c).Goes room event (t.handle c) := by
  cases c with
  | markRoomRead | viewRoom | viewThread | closeThread | leave | receive | backfill | receipt
  | sendFailed | forget | tick => cases hjump
  | jump =>
    cases hjump
    exact goes_jump _
  | supply request messages =>
    obtain ⟨a, ha, htarget⟩ := Option.map_eq_some_iff.1 hjump
    obtain ⟨hwaits, hrequest⟩ := Option.filter_eq_some_iff.1 ha
    cases htarget
    cases of_decide_eq_true hrequest
    exact goes_supply h hwaits messages

/-! ## What a jump reads -/

theorem Turn.land_of_covers {r : Turn σ} {e : Indexed}
    (h : r.tracker.book.covers e.scope e.position.sequence = true) (room : RoomId) :
    ∃ focus, r.land room e = r.update fun t => { t with focus } :=
  ⟨_, Turn.read_of_covers _ h⟩

theorem focus_land (r : Turn σ) (room : RoomId) (e : Indexed) :
    ∃ live, ((((r.land room e).report room).release).done).tracker.focus =
      some ⟨room, e.scope.thread, live⟩ :=
  ⟨_, (Turn.focus_report_release _ room).trans (Turn.focus_read _ _)⟩

theorem readsTo_nil (hc : t.chronicle.Sound) {t' : Tracker σ} (h : t'.chronicle = t.chronicle)
    (hbook : t'.book = t.book) : t.ReadsTo [] t' :=
  readsTo_foldl hc .nil (r := { tracker := t }) rfl rfl rfl h hbook

/-- A landing on a message of another room moves a marker there, unless the message is read, and
opens its thread here, if it has one. -/
theorem confinedTo_land_iff (hc : t.chronicle.Sound) {e : Indexed}
    (he : t.chronicle.get? event = some e) {r : Turn σ} (hr : r.tracker = t) :
    t.ConfinedTo room ((((r.land room e).report room).release).done).tracker ↔
      e.scope.room = room ∨ t.book.covers e.scope e.message.sequence = true ∧
        ∀ root, e.scope.thread = some root → t.chronicle.hasThread room root = true := by
  subst hr
  have hreads := readsTo_land (r := r) hc he rfl rfl rfl room
  obtain ⟨live, hfocus⟩ := focus_land r room e
  constructor
  · intro h
    by_cases hroom : e.scope.room = room
    · exact .inl hroom
    · right
      constructor
      · -- An unread message moves the marker of its scope, which is not in the room.
        by_contra hunread
        have hmoved := hreads.mark _ List.mem_cons_self
        rw [if_neg hunread, h.marks _ _ hroom] at hmoved
        exact hunread (MarkerBook.covers_iff.2 ⟨_, _, hmoved, Nat.le_refl _⟩)
      · intro root hroot
        obtain ⟨f, hf, -, hthread⟩ := h.focus
        cases hfocus.symm.trans hf
        rw [← hreads.chronicle]
        exact hthread root hroot
  · rintro (rfl | ⟨hread, hthread⟩)
    · refine hreads.confinedTo ?_ hfocus ?_
      · intro u hu
        rw [List.mem_singleton.1 hu]
      · intro root hroot
        exact hc.hasThread_iff.2 ⟨event, e, he, congrArg (Scope.mk e.scope.room) hroot⟩
    · rw [← hc.numbered he] at hread
      obtain ⟨focus, hland⟩ := Turn.land_of_covers hread room
      have hnothing : r.tracker.ReadsTo []
          ((((r.land room e).report room).release).done).tracker := by
        rw [hland]
        exact readsTo_report (r := r.update fun t => { t with focus }) hc .nil rfl rfl rfl room
      exact hnothing.confinedTo (List.forall_mem_nil _) hfocus hthread

section

variable {a : Answer σ} (h : t.Goes room event a) (hc : t.chronicle.Sound)

include h hc

theorem Goes.of_found {e : Indexed} (he : t.chronicle.get? event = some e) (ha : a.Accepted) :
    t.ReadsTo [⟨e.scope, event, e.message.sequence⟩] a.tracker ∧
      (∃ live, a.tracker.focus = some ⟨room, e.scope.thread, live⟩) ∧
      (t.ConfinedTo room a.tracker ↔ e.scope.room = room ∨
        t.book.covers e.scope e.message.sequence = true ∧
          ∀ root, e.scope.thread = some root → t.chronicle.hasThread room root = true) := by
  cases h with
  | @lands r e' start found answer =>
    cases found.symm.trans he
    subst start answer
    exact ⟨readsTo_land hc he rfl rfl rfl room, focus_land r room e, confinedTo_land_iff hc he rfl⟩
  | misses missing => cases missing.symm.trans he
  | refused found refused => exact absurd ha refused

theorem Goes.of_missing (hn : t.chronicle.get? event = none) :
    a.Accepted ∧ t.ReadsTo [] a.tracker ∧ t.ConfinedTo room a.tracker := by
  cases h with
  | lands start found => cases hn.symm.trans found
  | misses missing accepted chronicle book focus =>
    have hreads : t.ReadsTo [] a.tracker := readsTo_nil hc chronicle book
    exact ⟨accepted, hreads, hreads.confinedTo (List.forall_mem_nil _) focus nofun⟩
  | refused found => cases hn.symm.trans found

theorem Goes.of_refused (ha : ¬ a.Accepted) :
    t.ReadsTo [] a.tracker ∧ a.tracker.focus = t.focus := by
  cases h with
  | lands start found answer => exact absurd ⟨_, congrArg Answer.reply answer⟩ ha
  | misses missing accepted => exact absurd accepted ha
  | refused found refused chronicle book focus => exact ⟨readsTo_nil hc chronicle book, focus⟩

end

/-- Whatever happened before and wherever its message is indexed: a jump, be it completed at once or
by the answer that it waits for, reads the scope of the message and looks at the room that it was
asked for.  That room is all that changes exactly if the message is indexed there, or is read and
its thread is one of that room.  Jumps that do not find their message or are refused read
nothing. -/
theorem jumps_confined_unless_message_elsewhere {ambient : Ambient} {policy : Policy}
    {reader : UserId} {s : σ} (ht : (openOver ambient policy reader s).1 = .ok t) (ms : List Moment)
    (hjump : (t.after ms).target? c = some (room, event)) :
    let base := (t.after ms).informed c
    let a := (t.after ms).handle c
    (a.Accepted → ∀ e, base.chronicle.get? event = some e →
      base.ReadsTo [⟨e.scope, event, e.message.sequence⟩] a.tracker ∧
      (∃ live, a.tracker.focus = some ⟨room, e.scope.thread, live⟩) ∧
      (base.ConfinedTo room a.tracker ↔ e.scope.room = room ∨
        base.book.covers e.scope e.message.sequence = true ∧
          ∀ root, e.scope.thread = some root → base.chronicle.hasThread room root = true)) ∧
    (base.chronicle.get? event = none →
      a.Accepted ∧ base.ReadsTo [] a.tracker ∧ base.ConfinedTo room a.tracker) ∧
    (¬ a.Accepted → base.ReadsTo [] a.tracker ∧ a.tracker.focus = (t.after ms).focus ∧
      ∀ request messages, c = .supply request messages → base.ConfinedTo room a.tracker) := by
  intro base a
  obtain ⟨book, rfl, -⟩ := eq_fresh_of_openOver ht
  have hahead : ((fresh ambient policy reader book).after ms).LooksAhead :=
    looksAhead_after (looksAhead_of_awaited_eq_none rfl) ms
  have hsound : base.chronicle.Sound := by
    rw [chronicle_informed]
    exact sound_loaded (sound_after (Chronicle.sound_empty _) ms) c
  have hgoes : base.Goes room event a := goes_of_target? hahead hjump
  refine ⟨fun ha e he => hgoes.of_found hsound he ha, hgoes.of_missing hsound, fun ha => ?_⟩
  obtain ⟨hreads, hfocus⟩ := hgoes.of_refused hsound ha
  refine ⟨hreads, hfocus.trans (focus_informed _ c), ?_⟩
  rintro request messages rfl
  -- Only a jump that waited is refused with its messages, and then the user looks at its room.
  obtain ⟨w, hw, htarget⟩ := Option.map_eq_some_iff.1 hjump
  cases htarget
  have hroom := hahead w (Option.filter_eq_some_iff.1 hw).1
  exact hreads.confinedTo (List.forall_mem_nil _)
    (hfocus.trans ((focus_informed _ _).trans hroom)) nofun

/-- A jump waits for a message of one room, which then comes in another. -/
theorem jumps_confined_unless_message_elsewhere_when_answered :
    let here : RoomId := ⟨"!r"⟩
    let there : RoomId := ⟨"!s"⟩
    let thread : Scope := .ofThread there ⟨"$1"⟩
    let ms : List Moment := [.command (.jump here ⟨"$2"⟩ true), .command (.receive there
      [⟨⟨"$1"⟩, there, ⟨"@bot"⟩, 1, .plain, false⟩,
        ⟨⟨"$2"⟩, there, ⟨"@bot"⟩, 2, .threadReply ⟨"$1"⟩, false⟩] false)]
    let t := fresh .counting {} ⟨"@me"⟩ (⟨.empty, .empty, .empty⟩ : MarkerBook Shelf)
    let base := (t.after ms).informed (.supply 1 [])
    let a := (t.after ms).handle (.supply 1 [])
    (t.after ms).target? (.supply 1 []) = some (here, ⟨"$2"⟩) ∧ a.Accepted ∧
      base.ReadsTo [⟨thread, ⟨"$2"⟩, 2⟩] a.tracker ∧ ¬ base.ConfinedTo here a.tracker ∧
      a.tracker.focus = some ⟨here, some ⟨"$1"⟩, true⟩ := by
  intro here there thread ms t base a
  have ht : (openOver .counting {} ⟨"@me"⟩ Shelf.empty).1 = .ok t := rfl
  have hjump : (t.after ms).target? (.supply 1 []) = some (here, ⟨"$2"⟩) := by decide +kernel
  obtain ⟨hfound, -, -⟩ := jumps_confined_unless_message_elsewhere ht ms hjump
  have haccepted : a.Accepted := Answer.accepted_iff_isOk.2 (by decide +kernel)
  have he : base.chronicle.get? ⟨"$2"⟩ = some
      ⟨⟨⟨"$2"⟩, there, ⟨"@bot"⟩, 2, .threadReply ⟨"$1"⟩, false⟩, ⟨2, 1⟩, thread, .threadReply,
        true⟩ := by
    decide +kernel
  obtain ⟨hreads, -, hiff⟩ := hfound haccepted _ he
  refine ⟨hjump, haccepted, hreads, ?_, by decide +kernel⟩
  rw [hiff]
  have hunread : base.book.covers thread 2 = false := by decide +kernel
  rintro (hroom | ⟨hread, -⟩)
  · exact absurd hroom (by decide)
  · cases hunread.symm.trans hread

/-- A reply of another room is jumped to: its thread is read there and opened here. -/
theorem jump_reads_another_room :
    let here : RoomId := ⟨"!r"⟩
    let there : RoomId := ⟨"!s"⟩
    let ms : List Moment := [.command (.receive there
      [⟨⟨"$1"⟩, there, ⟨"@bot"⟩, 1, .plain, false⟩,
        ⟨⟨"$2"⟩, there, ⟨"@bot"⟩, 2, .threadReply ⟨"$1"⟩, false⟩] false)]
    let t := fresh .counting {} ⟨"@me"⟩ (⟨.empty, .empty, .empty⟩ : MarkerBook Shelf)
    let a := (t.after ms).handle (.jump here ⟨"$2"⟩ true)
    (openOver .counting {} ⟨"@me"⟩ Shelf.empty).1 = .ok t ∧ a.Accepted ∧
      ¬ (t.after ms).ConfinedTo here a.tracker ∧
      (t.after ms).book.mark? (.ofThread there ⟨"$1"⟩) .personal = none ∧
      a.tracker.book.mark? (.ofThread there ⟨"$1"⟩) .personal = some ⟨⟨"$2"⟩, 2, 1700000000000⟩ ∧
      ((t.after ms).roomState there).unread = 2 ∧ (a.tracker.roomState there).unread = 1 ∧
      a.tracker.focus = some ⟨here, some ⟨"$1"⟩, true⟩ ∧
      a.tracker.chronicle.hasThread here ⟨"$1"⟩ = false := by
  intro here there ms t a
  have haccepted : a.Accepted := Answer.accepted_iff_isOk.2 (by decide +kernel)
  have hbefore : (t.after ms).book.mark? (.ofThread there ⟨"$1"⟩) .personal = none := by
    decide +kernel
  have hafter : a.tracker.book.mark? (.ofThread there ⟨"$1"⟩) .personal =
      some ⟨⟨"$2"⟩, 2, 1700000000000⟩ := by decide +kernel
  refine ⟨rfl, haccepted, ?_, hbefore, hafter, by decide +kernel, by decide +kernel,
    by decide +kernel, by decide +kernel⟩
  intro hconfined
  have hsame := hconfined.marks (.ofThread there ⟨"$1"⟩) .personal (by decide)
  cases hafter.symm.trans (hsame.trans hbefore)

end Tracker

end ReadTracking
