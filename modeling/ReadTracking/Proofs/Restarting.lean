import ReadTracking.Proofs.Looking

/-!
# Restarting

A restart opens a new tracker over the markers that are stored, delivers every timeline, and then
the receipts that the server kept.  What is stored says no more than the account.  What the user
ever read is read again: messages of the user read their scopes as they come in, and the rest is
backed by a receipt.
-/

set_option autoImplicit false

namespace ReadTracking

open Backing Reference Reference.World

/-! ## What comes in again -/

namespace Turn

variable {σ : Type} {t : Tracker σ} {w : World} {delivered : Fin roomCount → Happening → Prop}
  {placed : List Placed}

theorem allows_owned (hc : t.chronicle.Knows w delivered) (hr : t.reader = Session.me)
    (ho : w.ReadsOwn) (hp : ∀ p ∈ placed, t.chronicle.Has p) :
    ∀ u ∈ owned t placed, w.Allows u := by
  intro u hu
  obtain ⟨p, hm, rfl⟩ := List.mem_map.1 hu
  obtain ⟨hm, hsender⟩ := List.mem_filter.1 hm
  obtain ⟨e, he, hs, hq⟩ := hp p hm
  rw [he, Option.any_some, decide_eq_true_eq, hr] at hsender
  obtain ⟨i, x, hx, hid, ht, hscope, hsequence⟩ := hc.of_get? he
  refine ⟨i, x, hc.happened hx, ?_, ho i x (hc.happened hx) (ht.sender.1 hsender)⟩
  rw [← hs, hscope, hid, ← hq, hsequence]

theorem read_owned (hc : t.chronicle.Knows w delivered) (hw : w.Orderly)
    (hr : t.reader = Session.me) (hp : ∀ p ∈ placed, t.chronicle.Has p) {i : Fin roomCount}
    {x : Happening} (hx : delivered i x) (ho : x.own = true) {p : Placed} (hm : p ∈ placed)
    (hid : p.id = x.id) : Update.Read (owned t placed) (w.scope i x.thread) x.sequence := by
  obtain ⟨e, he, ht, hscope, hsequence⟩ := hc.get?_id hw hx
  obtain ⟨e', he', hs, hq⟩ := hp p hm
  rw [hid, he] at he'
  cases he'
  refine ⟨⟨p.scope, p.id, p.position.sequence⟩, List.mem_map_of_mem (List.mem_filter.2 ⟨hm, ?_⟩),
    hscope.symm.trans hs, Nat.le_of_eq ?_⟩
  · rw [hid, he, Option.any_some, decide_eq_true_eq, hr]
    exact ht.sender.2 ho
  · rw [← hq, hsequence]

end Turn

namespace Session

variable {σ : Type} [Backing σ]

structure Grows (s s' : Session σ) : Prop where
  rooms : s'.rooms = s.rooms
  current : s'.current = s.current
  history : s'.history = s.history
  checks : s'.checks = s.checks
  holding : s'.holding = s.holding
  ambient : s'.tracker.ambient = s.tracker.ambient
  covers : ∀ {scope q}, s.tracker.book.covers scope q = true →
    s'.tracker.book.covers scope q = true
  backs : ∀ {scope q}, s.server.Backs me scope q → s'.server.Backs me scope q

omit [Backing σ] in
theorem Grows.refl (s : Session σ) : s.Grows s := ⟨rfl, rfl, rfl, rfl, rfl, rfl, id, id⟩

omit [Backing σ] in
theorem Grows.trans {s s' s'' : Session σ} (h : s.Grows s') (h' : s'.Grows s'') : s.Grows s'' where
  rooms := h'.rooms.trans h.rooms
  current := h'.current.trans h.current
  history := h'.history.trans h.history
  checks := h'.checks.trans h.checks
  holding := h'.holding.trans h.holding
  ambient := h'.ambient.trans h.ambient
  covers hc := h'.covers (h.covers hc)
  backs hb := h'.backs (h.backs hb)

variable [Steady σ]

structure Returns (w : World) (delivered : Fin roomCount → Happening → Prop) (s : Session σ) :
    Prop extends Tracks w delivered s where
  unfocused : s.tracker.focus = none
  own : ∀ {i x}, delivered i x → x.own = true →
    s.tracker.book.covers (w.scope i x.thread) x.sequence = true

variable {w : World} {s : Session σ} {delivered delivered' : Fin roomCount → Happening → Prop}
  {i : Fin roomCount}

theorem Returns.of_iff (h : s.Returns w delivered) (hd : ∀ i x, delivered i x ↔ delivered' i x) :
    s.Returns w delivered' := by
  have he : delivered' = delivered := by
    funext i x
    exact propext (hd i x).symm
  rw [he]
  exact h

theorem Returns.deliver (h : s.Returns w delivered) (ho : w.ReadsOwn) (i : Fin roomCount) :
    ∃ s', s.deliver (roomId i) (s.server.timeline (roomId i)) false = .ok s' ∧
      s'.Returns w (fun j x => delivered j x ∨ j = i ∧ x ∈ (w.room i).happenings) ∧
      s.Grows s' := by
  obtain ⟨events, hevents⟩ : ∃ events, events = s.server.timeline (roomId i) := ⟨_, rfl⟩
  have htimeline := h.records.timeline i
  rw [← hevents] at htimeline ⊢
  obtain ⟨t, ht⟩ : ∃ t : Tracker σ, t = { s.tracker with
      chronicle := (s.tracker.chronicle.ingest (roomId i) events false).1 } := ⟨_, rfl⟩
  obtain ⟨placed, hplaced⟩ : ∃ placed,
      placed = (s.tracker.chronicle.ingest (roomId i) events false).2 := ⟨_, rfl⟩
  have hknows : t.chronicle.Knows w fun j x =>
      delivered j x ∨ j = i ∧ x ∈ (w.room i).happenings := by
    rw [ht]
    exact h.knows.appendAll h.orderly htimeline (fun _ => id) (h.orderly.rising i)
      fun _ _ x hx _ => .inr hx
  have hhas : ∀ p ∈ placed, t.chronicle.Has p := by
    rw [ht, hplaced]
    exact Chronicle.has_ingest
  have hreader : t.reader = me := by
    rw [ht]
    exact h.reader
  have hunfocused : t.focus = none := by
    rw [ht]
    exact h.unfocused
  have hbook : t.book = s.tracker.book := by rw [ht]
  have htracks : ({ s with
      delivered := s.delivered.insertAll (events.map fun m : Message => (m.id, ()))
      tracker := t } : Session σ).Tracks w fun j x =>
      delivered j x ∨ j = i ∧ x ∈ (w.room i).happenings := by
    subst ht
    exact ⟨h.orderly, h.records, h.kept, ⟨h.prompt.shared, h.prompt.debounce, h.prompt.waiting⟩,
      h.policy, h.reader, h.awaited, h.held, h.written, hknows, h.covers⟩
  have ha := Tracker.reads_receive h.prompt (by rw [h.policy]) h.held (roomId i) events false
    ht hplaced
  have hfollowed : Turn.followed t (roomId i) placed false = [] := by
    rw [Turn.followed, hunfocused]
  rw [hfollowed] at ha
  have hwritten : (s.tracker.receive (roomId i) events false).tracker.book.WrittenThrough [] :=
    Tracker.writtenThrough_handle (c := .receive (roomId i) events false) h.written
      h.knows.sound rfl
  obtain ⟨actions, server, unsaved, hreply, hexecute, htracks', hreceives, -⟩ := Tracks.execute
    (s := { s with delivered := s.delivered.insertAll (events.map fun m : Message => (m.id, ())) })
    htracks ha hwritten (fun _ hu => absurd hu List.not_mem_nil)
    (Turn.allows_owned hknows hreader ho hhas)
  have hgrows : ∀ {scope q}, s.tracker.book.covers scope q = true →
      (s.tracker.receive (roomId i) events false).tracker.book.covers scope q = true :=
    fun hc => (ha.covers _ _).2 (.inl (hbook ▸ hc))
  refine ⟨_, ?_, ⟨htracks', ?_, ?_⟩, ⟨rfl, rfl, rfl, rfl, rfl, ?_, hgrows, hreceives.backs⟩⟩
  · simp only [Session.deliver, after, hreply, hexecute]
  · exact ha.view.focus.trans hunfocused
  · rintro j x hx hown
    have hold : delivered j x → s.tracker.book.covers (w.scope j x.thread) x.sequence = true :=
      fun hd => h.own hd hown
    rcases hx with hd | ⟨rfl, hx⟩
    · exact hgrows (hold hd)
    · cases hg : s.tracker.chronicle.get? x.id with
      | some e =>
        obtain ⟨j', y, hd, hid, -⟩ := h.knows.of_get? hg
        obtain ⟨rfl, rfl⟩ := h.orderly.id_inj hx (h.knows.happened hd) hid
        exact hgrows (hold hd)
      | none =>
        obtain ⟨m, hm, htells⟩ := h.records.exists_event hx
        obtain ⟨p, hp, hid⟩ := Chronicle.exists_placed (c := s.tracker.chronicle)
          (hevents ▸ hm) htells.room (htells.id ▸ hg)
        exact (ha.covers _ _).2 (.inr (.inr (Turn.read_owned hknows h.orderly hreader hhas
          (.inr ⟨rfl, hx⟩) hown (hplaced ▸ hp) (hid.trans htells.id))))
  · exact ha.view.ambient.trans (by rw [ht])

theorem Returns.deliverTimelines (h : s.Returns w delivered) (ho : w.ReadsOwn)
    {rooms : List RoomId} (hrooms : ∀ room ∈ rooms, ∃ i, room = roomId i) :
    ∃ s', Session.deliverTimelines rooms s = .ok s' ∧
      s'.Returns w (fun i x => delivered i x ∨ roomId i ∈ rooms ∧ x ∈ (w.room i).happenings) ∧
      s.Grows s' := by
  induction rooms generalizing s delivered with
  | nil =>
    refine ⟨s, rfl, h.of_iff fun i x => ⟨.inl, ?_⟩, .refl s⟩
    rintro (hd | ⟨hm, -⟩)
    · exact hd
    · cases hm
  | cons room rooms ih =>
    obtain ⟨i, rfl⟩ := hrooms room List.mem_cons_self
    obtain ⟨s₁, hdeliver, hreturns₁, hgrows₁⟩ := h.deliver ho i
    obtain ⟨s', hrest, hreturns, hgrows⟩ := ih hreturns₁ fun room hr =>
      hrooms room (List.mem_cons_of_mem _ hr)
    refine ⟨s', ?_, hreturns.of_iff fun j x => ?_, hgrows₁.trans hgrows⟩
    · simp only [Session.deliverTimelines, hdeliver, bind, Except.bind]
      exact hrest
    · have hsame : j = i ↔ roomId j = roomId i := ⟨congrArg roomId, fun he => roomId_injective he⟩
      rw [List.mem_cons, or_and_right, or_assoc, hsame]
      refine or_congr_right (or_congr_left (and_congr_right fun he => ?_))
      rw [roomId_injective he]

/-! ## Receipts that were kept -/

theorem Returns.deliverReceipts (h : s.Returns w w.Happened)
    {kept : List (ReceiptKey × KeptReceipt)}
    (hk : ∀ r ∈ kept, ∃ u, w.Allows u ∧ r = (⟨me, ⟨u.scope, .shared⟩⟩, ⟨u.event, u.sequence⟩)) :
    ∃ s', Session.deliverReceipts kept s = (s', .ok ()) ∧ s'.Returns w w.Happened ∧ s.Grows s' ∧
      ∀ r ∈ kept, s'.tracker.book.covers r.1.slot.scope r.2.sequence = true := by
  induction kept generalizing s with
  | nil => exact ⟨s, rfl, h, .refl s, fun r hr => absurd hr List.not_mem_nil⟩
  | cons r kept ih =>
    obtain ⟨u, hu, rfl⟩ := hk r List.mem_cons_self
    obtain ⟨i, x, hx, rfl, hreads⟩ := hu
    obtain ⟨e, he, -, hscope, hsequence⟩ := h.knows.get?_id h.orderly hx
    have ha := Tracker.reads_receipt h.prompt (roomId i) he .shared
    rw [h.reader, hscope, hsequence] at ha
    have hwritten :
        (s.tracker.receipt (roomId i) me x.id .shared .scope).tracker.book.WrittenThrough [] :=
      Tracker.writtenThrough_handle (c := .receipt (roomId i) me x.id .shared .scope) h.written
        h.knows.sound rfl
    obtain ⟨actions, server, unsaved, hreply, hexecute, htracks, hreceives, -⟩ :=
      Tracks.execute (s := s) h.toTracks ha hwritten (fun _ hu => absurd hu List.not_mem_nil)
        fun u hu => ⟨i, x, hx, List.mem_singleton.1 hu, hreads⟩
    have hgrows : ∀ {scope q}, s.tracker.book.covers scope q = true →
        (s.tracker.receipt (roomId i) me x.id .shared .scope).tracker.book.covers scope q = true :=
      fun hc => (ha.covers _ _).2 (.inl hc)
    have hreturns₁ : Returns w w.Happened _ :=
      ⟨htracks, ha.view.focus.trans h.unfocused, fun hd ho => hgrows (h.own hd ho)⟩
    obtain ⟨s', hrest, hreturns, hgrows', hcovers⟩ :=
      ih hreturns₁ fun r hr => hk r (List.mem_cons_of_mem _ hr)
    refine ⟨s', ?_, hreturns, .trans ?_ hgrows', fun r hr => ?_⟩
    · have hroom : (w.scope i x.thread).room = roomId i := rfl
      simp only [Session.deliverReceipts, hroom, after, hreply, hexecute]
      exact hrest
    · exact ⟨rfl, rfl, rfl, rfl, rfl, ha.view.ambient, hgrows, hreceives.backs⟩
    · rcases List.mem_cons.1 hr with rfl | hr
      · exact hgrows'.covers ((ha.covers _ _).2 (.inr (.inr
          (Update.read_singleton.2 ⟨rfl, Nat.le_refl _⟩))))
      · exact hcovers r hr

/-! ## The whole restart -/

def reopened (s : Session σ) (es : List Entry) (storage : σ) : Session σ :=
  { s with
    tracker := .fresh s.tracker.ambient s.tracker.policy me
      ⟨storage, MarkerBook.marksOf es, .empty⟩
    current := none, delivered := .empty, gaps := .empty, waiting := none }

variable {es : List Entry} {storage : σ}

theorem Follows.reopened (h : s.Follows w) (hl : list s.tracker.book.storage = (.ok es, storage)) :
    (s.reopened es storage).Returns w fun _ _ => False := by
  have hopen : MarkerBook.openOver s.tracker.book.storage =
      (.ok ⟨storage, MarkerBook.marksOf es, .empty⟩, storage) := by
    simp only [MarkerBook.openOver, hl]
  have hcontents := (Viewed.list_ok h.written.sound hl).2.2
  refine ⟨⟨h.orderly, h.records, h.kept, ?_, h.policy, rfl, rfl, rfl, ?_, ?_, ?_⟩, rfl,
    fun hd => hd.elim⟩
  · exact ⟨h.prompt.shared, congrArg Policy.debounce h.policy, fun _ => rfl⟩
  · exact MarkerBook.writtenThrough_of_openOver h.written.sound (congrArg Prod.fst hopen)
  · have hjudge : Judge.of me s.tracker.policy = .of me {} := by rw [h.policy]
    show (Chronicle.empty (.of me s.tracker.policy)).Knows w _
    rw [hjudge]
    exact .empty w
  · intro scope q hc
    obtain ⟨v, m, hm, hq⟩ := MarkerBook.covers_iff.1 hc
    have hlisted : (MarkerBook.marksOf es).get? ⟨scope, v⟩ = some m := hm
    rw [hcontents] at hlisted
    obtain ⟨m', hm', hle⟩ := h.written.behind _ _ hlisted
    exact h.covers (MarkerBook.covers_iff.2 ⟨v, m', hm', Nat.le_trans hq hle⟩)

omit [Steady σ] [Backing σ] in
theorem mem_joined {room : RoomId} :
    room ∈ s.joined ↔ ∃ name, s.rooms.get? name = some room := by
  unfold joined
  rw [Table.mem_keys]
  constructor
  · rintro ⟨v, hv⟩
    obtain ⟨room', hr, he⟩ := List.mem_map.1 (Table.mem_of_get?_ofList hv)
    cases he
    obtain ⟨⟨name, room⟩, hm, rfl⟩ := List.mem_map.1 hr
    exact ⟨name, (Table.get?_eq_some_iff _).2 hm⟩
  · rintro ⟨name, hn⟩
    have hm : room ∈ s.rooms.values :=
      List.mem_map_of_mem (f := Prod.snd) ((Table.get?_eq_some_iff _).1 hn)
    obtain ⟨v, hv, -⟩ := (Table.empty : Table RoomId Unit).get?_insertAll_of_mem
      ⟨(room, ()), List.mem_map_of_mem (f := (·, ())) hm, rfl⟩
    exact ⟨v, hv⟩

omit [Steady σ] [Backing σ] in
theorem mem_receiptsOf {server : Server} {user : UserId} {r : ReceiptKey × KeptReceipt} :
    r ∈ server.receiptsOf user ↔ server.receipts.get? r.1 = some r.2 ∧ r.1.user = user := by
  unfold Server.receiptsOf
  rw [List.mem_mergeSort, List.mem_filter, Table.get?_eq_some_iff, beq_iff_eq]

/-- Once everything has come in again, what can be recovered is read. -/
theorem Returns.covers_of_recoverable (h : s.Returns w w.Happened) {server : Server}
    (hkept : ∀ r ∈ server.receiptsOf me,
      s.tracker.book.covers r.1.slot.scope r.2.sequence = true)
    {thread : Option Nat} {q : Nat} (hr : w.Recoverable server i thread q) :
    s.tracker.book.covers (w.scope i thread) q = true := by
  rcases hr with ⟨x, hm, ho, rfl, hq⟩ | ⟨kept, hk, hq⟩
  · exact MarkerBook.covers_of_le hq (h.own hm ho)
  · exact MarkerBook.covers_of_le hq (hkept (⟨me, ⟨w.scope i thread, .shared⟩⟩, kept)
      (mem_receiptsOf.2 ⟨hk, rfl⟩))

/-- A session that has come back is where the account is. -/
theorem Follows.of_returns (h : s.Follows w) {s₁ s₂ : Session σ} (h₂ : s₂.Returns w w.Happened)
    (h₀₁ : (s.reopened es storage).Grows s₁) (h₁₂ : s₁.Grows s₂)
    (hkept : ∀ r ∈ s₁.server.receiptsOf me,
      s₂.tracker.book.covers r.1.slot.scope r.2.sequence = true) : s₂.Follows w := by
  have h₀₂ := h₀₁.trans h₁₂
  have hrecoverable : ∀ {i : Fin roomCount} {thread q}, (w.room i).Reads thread q →
      w.Recoverable s₁.server i thread q :=
    fun hq => (h.recoverable hq).imp_right h₀₁.backs
  have hcomplete : ∀ {i : Fin roomCount} {thread q}, (w.room i).Reads thread q →
      s₂.tracker.book.covers (w.scope i thread) q = true :=
    fun hq => h₂.covers_of_recoverable hkept (hrecoverable hq)
  refine ⟨h₂.toTracks, hcomplete, fun hq => (hrecoverable hq).imp_right h₁₂.backs, ?_, ?_,
    h₀₂.checks.trans h.checks, h₀₂.holding.trans h.holding⟩
  · rw [h₀₂.history]
    refine h.chronological.mono fun scope q hc => ?_
    obtain ⟨i, thread, rfl, hreads⟩ := h.covers hc
    exact hcomplete hreads
  · rw [h₀₂.rooms]
    exact h.rooms

theorem Watches.restart (h : s.Watches w)
    (hl : list s.tracker.book.storage = (.ok es, storage)) :
    ∃ s', s.restart = .ok (s', .ok ()) ∧ s'.Watches { w with gaze := none } ∧
      s'.tracker.ambient = s.tracker.ambient := by
  have hopen : Tracker.openOver s.tracker.ambient s.tracker.policy me s.tracker.book.storage =
      (.ok (.fresh s.tracker.ambient s.tracker.policy me
        ⟨storage, MarkerBook.marksOf es, .empty⟩), storage) := by
    simp only [Tracker.openOver, MarkerBook.openOver, hl]
  have hjoined : ∀ room ∈ (s.reopened es storage).joined, ∃ i, room = roomId i := by
    intro room hr
    obtain ⟨name, hn⟩ := mem_joined.1 hr
    obtain ⟨i, -, -, rfl⟩ := h.rooms.1 hn
    exact ⟨i, rfl⟩
  obtain ⟨s₁, htimelines, hreturns₁, hgrows₁⟩ :=
    (h.toFollows.reopened hl).deliverTimelines h.own hjoined
  have hreturns : s₁.Returns w w.Happened := hreturns₁.of_iff fun i x => by
    constructor
    · rintro (hd | ⟨-, hm⟩)
      · exact hd.elim
      · exact hm
    · intro hm
      exact .inr ⟨mem_joined.2 ⟨roomName i, h.rooms.2 ⟨i, List.ne_nil_of_mem hm, rfl, rfl⟩⟩, hm⟩
  have hkept : ∀ r ∈ s₁.server.receiptsOf me, ∃ u, w.Allows u ∧
      r = (⟨me, ⟨u.scope, .shared⟩⟩, ⟨u.event, u.sequence⟩) := by
    rintro ⟨key, kept⟩ hr
    obtain ⟨u, hu, hkey, hkept⟩ := hreturns.kept (mem_receiptsOf.1 hr).1
    exact ⟨u, hu, Prod.ext hkey hkept⟩
  obtain ⟨s₂, hreceipts, hreturns₂, hgrows₂, hcovers⟩ := hreturns.deliverReceipts hkept
  have hfollows := h.toFollows.of_returns hreturns₂ hgrows₁ hgrows₂ hcovers
  obtain ⟨s', hobserve, hends⟩ := hfollows.observe "save_and_reload"
  have hgrows := hgrows₁.trans hgrows₂
  refine ⟨s', ?_, ⟨hends.toFollows.same (h.orderly.look none) rfl rfl, ?_, h.own⟩,
    hends.ambient.trans hgrows.ambient⟩
  · simp only [Session.restart, hopen]
    show Except.bind (Session.deliverTimelines (s.reopened es storage).joined
      (s.reopened es storage)) _ = _
    rw [htimelines]
    simp only [Except.bind, hreceipts, hobserve]
    rfl
  · rw [hends.focus, hends.current, hreturns₂.unfocused, hgrows.current]
    exact looks_nowhere w

end Session

end ReadTracking
