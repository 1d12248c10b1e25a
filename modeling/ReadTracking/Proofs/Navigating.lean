import ReadTracking.Proofs.Requests
import ReadTracking.Proofs.RoomReceipts

/-!
# Navigation reads what it looks at

Looking at a room, at a thread or at one message moves the personal markers of the scopes that are
looked at, each at most once, and no other marker.  So those scopes count what they count from
there on, and every other scope, thread and room is as it was.
-/

set_option autoImplicit false

namespace ReadTracking

variable {σ : Type}

/-! ## Reading one scope after the other -/

namespace Turn

variable [Backing σ]

theorem ambient_read (r : Turn σ) (u : Update) :
    (r.read u).tracker.ambient = r.tracker.ambient := by
  by_cases hu : r.tracker.book.covers u.scope u.sequence = true
  · rw [read_of_covers r hu]
  · rw [read_of_not_covers r hu]

theorem mark?_read_of_covers (r : Turn σ) {u : Update}
    (hu : r.tracker.book.covers u.scope u.sequence = true) (s : Scope) (v : Visibility) :
    (r.read u).tracker.book.mark? s v = r.tracker.book.mark? s v := by
  rw [read_of_covers r hu]

theorem mark?_read_of_not_covers (r : Turn σ) {u : Update}
    (hu : ¬ r.tracker.book.covers u.scope u.sequence = true) (s : Scope) (v : Visibility) :
    (r.read u).tracker.book.mark? s v =
      if s = u.scope ∧ v = .personal then some ⟨u.event, u.sequence, r.tracker.ambient.wallClock⟩
      else r.tracker.book.mark? s v := by
  have hstale := MarkerBook.isStale_eq_false_of_not_covers .personal hu
  rw [read_of_not_covers r hu]
  dsimp only
  rw [MarkerBook.mark?_congr (MarkerBook.marks_advance _ hstale _), MarkerBook.mark?_setMark]

theorem mark?_read_of_ne (r : Turn σ) {u : Update} {s : Scope} {v : Visibility}
    (h : u.scope = s → v ≠ .personal) :
    (r.read u).tracker.book.mark? s v = r.tracker.book.mark? s v := by
  by_cases hu : r.tracker.book.covers u.scope u.sequence = true
  · exact r.mark?_read_of_covers hu s v
  · rw [r.mark?_read_of_not_covers hu, if_neg]
    rintro ⟨hs, hv⟩
    exact h hs.symm hv

theorem covers_read_iff (r : Turn σ) (u : Update) (s : Scope) (q : Nat) :
    (r.read u).tracker.book.covers s q = true ↔
      r.tracker.book.covers s q = true ∨ s = u.scope ∧ q ≤ u.sequence := by
  by_cases hu : r.tracker.book.covers u.scope u.sequence = true
  · rw [read_of_covers r hu]
    constructor
    · exact .inl
    · rintro (hq | ⟨rfl, hq⟩)
      · exact hq
      · exact MarkerBook.covers_of_le hq hu
  · rw [read_of_not_covers r hu]
    exact MarkerBook.covers_advance _ _ _ _ _ _

theorem covers_foldl_read (us : List Update) (r : Turn σ) (s : Scope) (q : Nat) :
    (us.foldl read r).tracker.book.covers s q = true ↔
      r.tracker.book.covers s q = true ∨ ∃ u ∈ us, s = u.scope ∧ q ≤ u.sequence := by
  induction us generalizing r with
  | nil => simp
  | cons u us ih =>
    rw [List.foldl_cons, ih, covers_read_iff, or_assoc]
    simp

theorem mark?_foldl_read_of_ne {us : List Update} (r : Turn σ) {s : Scope} {v : Visibility}
    (h : ∀ u ∈ us, u.scope = s → v ≠ .personal) :
    (us.foldl read r).tracker.book.mark? s v = r.tracker.book.mark? s v := by
  induction us generalizing r with
  | nil => rfl
  | cons u us ih =>
    rw [List.foldl_cons, ih _ fun w hw => h w (List.mem_cons_of_mem _ hw)]
    exact r.mark?_read_of_ne (h u List.mem_cons_self)

/-- Where each scope comes once, what is read of it before decides whether its marker moves. -/
theorem mark?_foldl_read {us : List Update} (h : Apart us) (r : Turn σ) {u : Update}
    (hu : u ∈ us) : (us.foldl read r).tracker.book.mark? u.scope .personal =
      if r.tracker.book.covers u.scope u.sequence then r.tracker.book.mark? u.scope .personal
      else some ⟨u.event, u.sequence, r.tracker.ambient.wallClock⟩ := by
  induction us generalizing r with
  | nil => cases hu
  | cons w us ih =>
    obtain ⟨hw, hrest⟩ := List.pairwise_cons.1 h
    rw [List.foldl_cons]
    rcases List.mem_cons.1 hu with rfl | hu
    · rw [mark?_foldl_read_of_ne _ fun x hx hs => absurd hs.symm (hw x hx)]
      by_cases hread : r.tracker.book.covers u.scope u.sequence = true
      · rw [r.mark?_read_of_covers hread, if_pos hread]
      · rw [r.mark?_read_of_not_covers hread, if_neg hread, if_pos ⟨rfl, rfl⟩]
    · have hne : u.scope ≠ w.scope := (hw u hu).symm
      rw [ih hrest _ hu, r.covers_read_of_ne hne, r.ambient_read,
        r.mark?_read_of_ne fun hs => absurd hs.symm hne]

end Turn

/-! ## What is read between two trackers -/

namespace Tracker

/-- From one tracker to another these scopes were read, each up to a message, and nothing else. -/
structure ReadsTo (t : Tracker σ) (us : List Update) (t' : Tracker σ) : Prop where
  apart : Apart us
  chronicle : t'.chronicle = t.chronicle
  mark : ∀ u ∈ us, t'.book.mark? u.scope .personal =
    if t.book.covers u.scope u.sequence then t.book.mark? u.scope .personal
    else some ⟨u.event, u.sequence, t.ambient.wallClock⟩
  kept : ∀ s v, (∀ u ∈ us, u.scope = s → v ≠ .personal) → t'.book.mark? s v = t.book.mark? s v
  read : ∀ u ∈ us, t'.book.readTo u.scope = max (t.book.readTo u.scope) (some u.sequence)
  count : ∀ u ∈ us, countScope t'.chronicle t'.book u.scope =
    t.chronicle.countFrom u.scope (max (t.book.readTo u.scope) (some u.sequence))
  beyond : ∀ u ∈ us, ∀ q, u.sequence < q → t'.book.covers u.scope q = t.book.covers u.scope q
  others : ∀ s, (∀ u ∈ us, u.scope ≠ s) →
    countScope t'.chronicle t'.book s = countScope t.chronicle t.book s
  threads : ∀ room root, (∀ u ∈ us, u.scope ≠ .ofThread room root) →
    t'.threadState room root = t.threadState room root
  rooms : ∀ room, (∀ u ∈ us, u.scope.room ≠ room) → t'.roomState room = t.roomState room

variable [Backing σ] {t t' : Tracker σ} {us : List Update} {room : RoomId}

theorem readsTo_foldl (hc : t.chronicle.Sound) (h : Apart us) {r : Turn σ}
    (hr : r.tracker.chronicle = t.chronicle) (hb : r.tracker.book = t.book)
    (ha : r.tracker.ambient = t.ambient) (hchronicle : t'.chronicle = r.tracker.chronicle)
    (hbook : t'.book = (us.foldl Turn.read r).tracker.book) : t.ReadsTo us t' := by
  have hsame : t'.chronicle = t.chronicle := hchronicle.trans hr
  have hcovers : ∀ s q, t'.book.covers s q = true ↔
      t.book.covers s q = true ∨ ∃ u ∈ us, s = u.scope ∧ q ≤ u.sequence := by
    intro s q
    rw [hbook, Turn.covers_foldl_read, hb]
  have hread : ∀ u ∈ us, t'.book.readTo u.scope =
      max (t.book.readTo u.scope) (some u.sequence) := by
    intro u hu
    apply MarkerBook.readTo_eq_max
    intro n
    rw [hcovers]
    -- Updates of one scope are one update, so its sequence alone says what is read anew.
    apply or_congr_right
    constructor
    · rintro ⟨w, hw, hs, hn⟩
      rw [eq_of_apart h hu hw hs]
      exact ⟨_, rfl, hn⟩
    · rintro ⟨_, hq, hn⟩
      cases hq
      exact ⟨u, hu, rfl, hn⟩
  have hothers : ∀ s, (∀ u ∈ us, u.scope ≠ s) →
      countScope t'.chronicle t'.book s = countScope t.chronicle t.book s := by
    intro s hs
    have hkept : t'.book.readTo s = t.book.readTo s := by
      apply MarkerBook.readTo_eq_of_covers
      intro q
      rw [hcovers, or_iff_left]
      rintro ⟨u, hu, he, -⟩
      exact hs u hu he.symm
    rw [hsame, hc.countScope_eq_countFrom, hc.countScope_eq_countFrom, hkept]
  exact {
    apart := h
    chronicle := hsame
    mark := fun u hu => by rw [hbook, Turn.mark?_foldl_read h r hu, hb, ha]
    kept := fun s v hs => by rw [hbook, Turn.mark?_foldl_read_of_ne r hs, hb]
    read := hread
    count := fun u hu => by rw [hsame, hc.countScope_eq_countFrom, hread u hu]
    beyond := by
      intro u hu q hq
      rw [Bool.eq_iff_iff, hcovers, or_iff_left]
      rintro ⟨w, hw, hs, hle⟩
      cases eq_of_apart h hu hw hs
      omega
    others := hothers
    threads := by
      intro room root hs
      have hcount := hothers _ hs
      rw [hsame] at hcount
      unfold Tracker.threadState ReadTracking.threadState
      rw [hsame, hcount]
    rooms := by
      intro room hs
      unfold Tracker.roomState
      rw [hsame]
      apply roomState_congr_count
      rintro s rfl
      rw [← hsame, hothers s fun u hu he => hs u hu (congrArg Scope.room he), hsame] }

theorem readsTo_report (hc : t.chronicle.Sound) (h : Apart us) {r : Turn σ}
    (hr : r.tracker.chronicle = t.chronicle) (hb : r.tracker.book = t.book)
    (ha : r.tracker.ambient = t.ambient) (room : RoomId) :
    t.ReadsTo us ((((us.foldl Turn.read r).report room).release).done).tracker := by
  obtain ⟨reported, notices, hreport⟩ := (us.foldl Turn.read r).report_eq room
  rw [hreport]
  exact readsTo_foldl hc h hr hb ha (r.chronicle_foldl_read us) rfl

end Tracker

/-! ## The three ways to look -/

section

variable [Backing σ]

structure Answer.ShowsRoom (a : Answer σ) (t : Tracker σ) (room : RoomId) : Prop where
  reads : ∃ us, t.ReadsTo us a.tracker ∧ ∀ u ∈ us, u.scope = .ofRoom room ∧ t.chronicle.IsEnd u
  main : (∃ id e, t.chronicle.get? id = some e ∧ e.scope = .ofRoom room) →
    countScope a.tracker.chronicle a.tracker.book (.ofRoom room) = ⟨0, 0, false⟩ ∧
      (a.tracker.roomState room).mainUnread = 0 ∧ (a.tracker.roomState room).mainHighlights = 0
  threads : (a.tracker.roomState room).threads = (t.roomState room).threads ∧
    ∀ root, a.tracker.threadState room root = t.threadState room root
  rooms : ∀ room', room' ≠ room → a.tracker.roomState room' = t.roomState room' ∧
    ∀ root, a.tracker.threadState room' root = t.threadState room' root

structure Answer.ShowsThread (a : Answer σ) (t : Tracker σ) (room : RoomId)
    (root : EventId) : Prop where
  reads : ∃ us, t.ReadsTo us a.tracker ∧ ∀ u ∈ us,
    (u.scope = .ofThread room root ∧ t.chronicle.IsEnd u) ∨
      u.scope = .ofRoom room ∧ u.event = root ∧
        ∃ e, t.chronicle.get? root = some e ∧ e.message.room = room ∧
          u.sequence = e.message.sequence
  thread : ∃ s, a.tracker.threadState room root = some s ∧
    s.unread = 0 ∧ s.highlights = 0 ∧ s.incomplete = false
  known : ∀ e, t.chronicle.get? root = some e → e.message.room = room →
    countScope a.tracker.chronicle a.tracker.book (.ofRoom room) =
      t.chronicle.countFrom (.ofRoom room)
        (max (t.book.readTo (.ofRoom room)) (some e.message.sequence))
  unknown : (∀ e, t.chronicle.get? root = some e → e.message.room ≠ room) →
    countScope a.tracker.chronicle a.tracker.book (.ofRoom room) =
      countScope t.chronicle t.book (.ofRoom room)
  threads : ∀ root', root' ≠ root → a.tracker.threadState room root' = t.threadState room root'
  rooms : ∀ room', room' ≠ room → a.tracker.roomState room' = t.roomState room' ∧
    ∀ root', a.tracker.threadState room' root' = t.threadState room' root'

end

theorem Chronicle.rootKnown_iff {c : Chronicle} {room : RoomId} {root : EventId} :
    c.rootKnown room root = true ↔ ∃ e, c.get? root = some e ∧ e.message.room = room := by
  unfold rootKnown
  cases c.get? root <;> simp

namespace Tracker

variable {t t' : Tracker σ} {us : List Update} {room : RoomId}

theorem ReadsTo.elsewhere (h : t.ReadsTo us t') (hroom : ∀ u ∈ us, u.scope.room = room)
    (room' : RoomId) (hne : room' ≠ room) : t'.roomState room' = t.roomState room' ∧
      ∀ root, t'.threadState room' root = t.threadState room' root := by
  constructor
  · apply h.rooms
    intro u hu he
    exact hne (he.symm.trans (hroom u hu))
  · intro root
    apply h.threads
    intro u hu he
    exact hne ((congrArg Scope.room he).symm.trans (hroom u hu))

variable [Backing σ]

theorem showsRoom (hc : t.chronicle.Sound) (room : RoomId) :
    (t.viewRoom room).ShowsRoom t room := by
  have hreads : t.ReadsTo (t.looks (.viewRoom room)) (t.viewRoom room).tracker := by
    rw [viewRoom_eq_foldl]
    exact readsTo_report hc (t.apart_looks _) rfl rfl rfl room
  have hlooks : ∀ u ∈ t.looks (.viewRoom room), u.scope = .ofRoom room ∧ t.chronicle.IsEnd u :=
    fun u hu => hc.horizon_eq_some_iff.1 (Option.mem_toList.1 hu)
  have hthreads : ∀ root, (t.viewRoom room).tracker.threadState room root =
      t.threadState room root := by
    intro root
    apply hreads.threads
    intro u hu he
    cases (hlooks u hu).1.symm.trans he
  exact {
    reads := ⟨_, hreads, hlooks⟩
    main := by
      intro hmessage
      have hsound : (t.viewRoom room).tracker.chronicle.Sound := hreads.chronicle.symm ▸ hc
      have hcount := (atEdge_viewRoom hc room).countScope hsound
        fun _ => hreads.chronicle.symm ▸ hmessage
      exact ⟨hcount, congrArg ScopeCount.unread hcount, congrArg ScopeCount.highlights hcount⟩
    threads := by
      refine ⟨?_, hthreads⟩
      -- Which threads there are the chronicle tells; their states come from their own scopes.
      show ((t.viewRoom room).tracker.chronicle.threads room).filterMap _ = _
      rw [hreads.chronicle]
      apply List.filterMap_congr
      intro root _
      have hthread := hthreads root
      rwa [Tracker.threadState, hreads.chronicle] at hthread
    rooms := hreads.elsewhere fun u hu => congrArg Scope.room (hlooks u hu).1 }

/-- Where a look at a thread looks: at the end of the thread, and in the main timeline at the
root. -/
theorem mem_looks_viewThread (hc : t.chronicle.Sound) {root : EventId}
    (h : (t.viewThread room root).Accepted) {u : Update} : u ∈ t.looks (.viewThread room root) ↔
      (u.scope = .ofThread room root ∧ t.chronicle.IsEnd u) ∨
        u.scope = .ofRoom room ∧ u.event = root ∧
          ∃ e, t.chronicle.get? root = some e ∧ e.message.room = room ∧
            u.sequence = e.message.sequence := by
  simp only [looks, accepted_viewThread.1 h, if_true]
  rw [List.mem_append, Option.mem_toList, hc.horizon_eq_some_iff]
  apply or_congr_right
  cases hknown : t.chronicle.rootKnown room root with
  | false =>
    simp only [Bool.false_eq_true, if_false, List.not_mem_nil, false_iff]
    rintro ⟨-, -, e, he, hroom, -⟩
    rw [Chronicle.rootKnown_iff.2 ⟨e, he, hroom⟩] at hknown
    cases hknown
  | true =>
    obtain ⟨e, he, hroom⟩ := Chronicle.rootKnown_iff.1 hknown
    simp only [if_true, Chronicle.position?, he, Option.map_some, Option.toList_some,
      List.map_cons, List.map_nil, List.mem_singleton, hc.numbered he, Option.some.injEq,
      exists_eq_left', hroom, true_and]
    obtain ⟨scope, event, sequence⟩ := u
    simp only [Update.mk.injEq]

theorem showsThread (hc : t.chronicle.Sound) {root : EventId}
    (h : (t.viewThread room root).Accepted) : (t.viewThread room root).ShowsThread t room root := by
  have hlooks := fun u => mem_looks_viewThread hc h (u := u)
  have hreads : t.ReadsTo (t.looks (.viewThread room root)) (t.viewThread room root).tracker := by
    rw [viewThread_eq_foldl (accepted_viewThread.1 h)]
    exact readsTo_report hc (t.apart_looks _) rfl rfl rfl room
  have hscope : ∀ u ∈ t.looks (.viewThread room root),
      u.scope = .ofThread room root ∨ u.scope = .ofRoom room :=
    fun u hu => ((hlooks u).1 hu).imp And.left And.left
  exact {
    reads := ⟨_, hreads, fun u hu => (hlooks u).1 hu⟩
    thread := by
      have hsound : (t.viewThread room root).tracker.chronicle.Sound := hreads.chronicle.symm ▸ hc
      apply (atEdge_viewThread hc ?_).threadState hsound
      obtain ⟨actions, hreply⟩ := h
      rw [hreply]
      rfl
    known := by
      intro e he hroom
      exact hreads.count ⟨.ofRoom room, root, e.message.sequence⟩
        ((hlooks _).2 (.inr ⟨rfl, rfl, e, he, hroom, rfl⟩))
    unknown := by
      intro hunknown
      apply hreads.others
      intro u hu hmain
      rcases (hlooks u).1 hu with ⟨hs, -⟩ | ⟨-, -, e, he, hroom, -⟩
      · cases hs.symm.trans hmain
      · exact hunknown e he hroom
    threads := by
      intro root' hne
      apply hreads.threads
      intro u hu he
      rcases hscope u hu with hs | hs
      · cases hs.symm.trans he
        exact hne rfl
      · cases hs.symm.trans he
    rooms := by
      apply hreads.elsewhere
      intro u hu
      rcases hscope u hu with hs | hs <;> rw [hs] <;> rfl }

/-! ## Jumps -/

theorem barrier_eq_none_iff {c : Chronicle} {event : EventId} {e : Indexed}
    (he : c.get? event = some e) {includeThreads : Bool} :
    Turn.barrier c event includeThreads = none ↔ includeThreads = true ∨ e.scope.thread = none := by
  unfold Turn.barrier
  cases includeThreads with
  | true => simp
  | false => simp [Chronicle.scope?, he]

theorem barrier_eq_some {c : Chronicle} {event root : EventId} {includeThreads : Bool}
    (h : Turn.barrier c event includeThreads = some root) :
    ∃ e, c.get? event = some e ∧ e.scope.thread = some root := by
  unfold Turn.barrier at h
  split at h
  · cases h
  · obtain ⟨s, hs, hroot⟩ := Option.bind_eq_some_iff.1 h
    obtain ⟨e, he, rfl⟩ := Option.map_eq_some_iff.1 hs
    exact ⟨e, he, hroot⟩

theorem jump_eq_land {event : EventId} {includeThreads : Bool} {e : Indexed}
    (hbar : Turn.barrier t.chronicle event includeThreads = none)
    (he : t.chronicle.get? event = some e) (room : RoomId) :
    t.jump room event includeThreads =
      ((((({ tracker := { t with awaited := none } } : Turn σ).land room e).report
        room).release).done) := by
  simp only [jump, hbar, he]

theorem readsTo_land (hc : t.chronicle.Sound) {event : EventId} {e : Indexed}
    (he : t.chronicle.get? event = some e) {r : Turn σ} (hr : r.tracker.chronicle = t.chronicle)
    (hb : r.tracker.book = t.book) (ha : r.tracker.ambient = t.ambient) (room : RoomId) :
    t.ReadsTo [⟨e.scope, event, e.message.sequence⟩]
      ((((r.land room e).report room).release).done).tracker := by
  have hland : ∃ focus, r.land room e = [(⟨e.scope, event, e.message.sequence⟩ : Update)].foldl
      Turn.read (r.update fun t => { t with focus }) := by
    rw [← hc.numbered he, ← hc.named he]
    exact ⟨_, rfl⟩
  obtain ⟨focus, hland⟩ := hland
  rw [hland]
  let r' := r.update fun t => { t with focus }
  exact readsTo_report (r := r') hc (List.pairwise_singleton _ _) hr hb ha room

/-- Whatever happened before, and whether the storage fails or not: looking at a room reads its main
timeline to the end, looking at a thread reads the thread to its end and the main timeline up to the
root, and jumping to an indexed message reads its scope up to the message.  Counts follow from
there, and nothing else is read. -/
theorem navigation_reads_what_it_looks_at {ambient : Ambient} {policy : Policy} {reader : UserId}
    {s : σ} (ht : (openOver ambient policy reader s).1 = .ok t) (ms : List Moment) :
    (∀ room, ((t.after ms).handle (.viewRoom room)).ShowsRoom (t.after ms) room) ∧
    (∀ room root, ((t.after ms).handle (.viewThread room root)).Accepted →
      ((t.after ms).handle (.viewThread room root)).ShowsThread (t.after ms) room root) ∧
    ∀ room event includeThreads e, (t.after ms).chronicle.get? event = some e →
      let a := (t.after ms).handle (.jump room event includeThreads)
      (a.Accepted ↔ includeThreads = true ∨ e.scope.thread = none) ∧
        (a.Accepted → (t.after ms).ReadsTo [⟨e.scope, event, e.message.sequence⟩] a.tracker) ∧
        (¬ a.Accepted → a.tracker = t.after ms) := by
  obtain ⟨book, rfl, -⟩ := eq_fresh_of_openOver ht
  have hsound : ((fresh ambient policy reader book).after ms).chronicle.Sound :=
    sound_after (Chronicle.sound_empty _) ms
  refine ⟨showsRoom hsound, fun room root => showsThread hsound, ?_⟩
  intro room event includeThreads e he a
  refine ⟨accepted_jump.trans (barrier_eq_none_iff he), ?_, fun hrefused =>
    tracker_jump_of_refused (Answer.isOk_eq_false hrefused)⟩
  intro haccepted
  show ReadsTo _ _ (jump _ room event includeThreads).tracker
  rw [jump_eq_land (accepted_jump.1 haccepted) he]
  exact readsTo_land hsound he rfl rfl rfl room

/-- A room with a skipped stretch and a reply that is itself the root of a thread. -/
theorem navigation_reads_what_it_looks_at_across_a_gap :
    let room : RoomId := ⟨"!r"⟩
    let post (id : String) (q : Nat) (content : Content) : Message :=
      ⟨⟨id⟩, room, ⟨"@bot"⟩, q, content, false⟩
    let ms : List Moment :=
      [.command (.receive room [post "$1" 1 .plain, post "$2" 2 (.threadReply ⟨"$1"⟩),
        post "$3" 3 .plain, post "$4" 4 (.threadReply ⟨"$2"⟩)] false),
        .command (.receive room [post "$9" 9 (.threadReply ⟨"$1"⟩)] true)]
    let t := fresh .counting {} ⟨"@me"⟩ (⟨.empty, .empty, .empty⟩ : MarkerBook Shelf)
    let view := (t.after ms).handle (.viewRoom room)
    let look := (t.after ms).handle (.viewThread room ⟨"$2"⟩)
    let jump := (t.after ms).handle (.jump room ⟨"$2"⟩ true)
    view.ShowsRoom (t.after ms) room ∧ look.ShowsThread (t.after ms) room ⟨"$2"⟩ ∧
      (t.after ms).ReadsTo [⟨.ofThread room ⟨"$1"⟩, ⟨"$2"⟩, 2⟩] jump.tracker ∧
      view.tracker.book.readTo (.ofRoom room) = some 9 ∧
      (look.tracker.roomState room).mainUnread = 1 ∧
      (look.tracker.threadState room ⟨"$1"⟩).map (·.unread) = some 2 ∧
      (jump.tracker.threadState room ⟨"$1"⟩).map (·.unread) = some 1 := by
  intro room post ms t view look jump
  have ht : (openOver .counting {} ⟨"@me"⟩ Shelf.empty).1 = .ok t := rfl
  obtain ⟨hview, hlook, hjump⟩ := navigation_reads_what_it_looks_at ht ms
  have he : (t.after ms).chronicle.get? ⟨"$2"⟩ = some
      ⟨post "$2" 2 (.threadReply ⟨"$1"⟩), ⟨2, 1⟩, .ofThread room ⟨"$1"⟩, .threadReply, true⟩ := by
    decide +kernel
  obtain ⟨hiff, hreads, -⟩ := hjump room ⟨"$2"⟩ true _ he
  have haccepted : ((t.after ms).viewThread room ⟨"$2"⟩).Accepted :=
    accepted_viewThread.2 (by decide +kernel)
  exact ⟨hview room, hlook room ⟨"$2"⟩ haccepted, hreads (hiff.2 (.inl rfl)), by decide +kernel,
    by decide +kernel, by decide +kernel, by decide +kernel⟩

end Tracker

end ReadTracking
