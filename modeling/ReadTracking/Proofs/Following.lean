import ReadTracking.Proofs.Counts
import ReadTracking.Session.Play

/-!
# A session follows the account

While a session plays, its tracker has never read what the account has not read, and no receipt
that the server kept says more than the account.  In the other direction, what the account has
read is covered by the markers, and it can be recovered: by a message of the user or by a kept
receipt.  Both are kept by every operation whose updates the account allows.
-/

set_option autoImplicit false

namespace ReadTracking

open Backing

namespace Reference.World

def Happened (w : World) (i : Fin roomCount) (h : Happening) : Prop := h ∈ (w.room i).happenings

def Allows (w : World) (u : Update) : Prop :=
  ∃ i, ∃ h ∈ (w.room i).happenings, u = ⟨w.scope i h.thread, h.id, h.sequence⟩ ∧
    (w.room i).Reads h.thread h.sequence

structure Further (w w' : World) : Prop where
  orderly : w'.Orderly
  happenings : ∀ i : Fin roomCount, (w'.room i).happenings = (w.room i).happenings
  numbered : w'.nextSequence = w.nextSequence
  reads : ∀ {i : Fin roomCount} {thread q}, (w.room i).Reads thread q →
    (w'.room i).Reads thread q

def Recoverable (w : World) (server : Server) (i : Fin roomCount) (thread : Option Nat)
    (q : Nat) : Prop :=
  (∃ h ∈ (w.room i).happenings, h.own = true ∧ h.thread = thread ∧ q ≤ h.sequence) ∨
    server.Backs Session.me (w.scope i thread) q

def ReadsOwn (w : World) : Prop :=
  ∀ i : Fin roomCount, ∀ h ∈ (w.room i).happenings, h.own = true →
    (w.room i).Reads h.thread h.sequence

structure Looks (w : World) (focus : Option Focus) (current : Option RoomId) : Prop where
  place : ∀ {g}, w.gaze = some g → (w.room g.room).HasPlace g.thread
  focus : focus = w.gaze.map fun g => ⟨roomId g.room, (w.scope g.room g.thread).thread, g.live⟩
  current : current = w.gaze.map fun g => roomId g.room

variable {w w' : World} {i : Fin roomCount}

theorem Further.scope (h : w.Further w') (i : Fin roomCount) (thread : Option Nat) :
    w'.scope i thread = w.scope i thread := scope_congr (h.happenings i) thread

theorem Further.readsOwn (h : w.Further w') (ho : w.ReadsOwn) : w'.ReadsOwn := by
  intro i x hm hown
  rw [h.happenings] at hm
  exact h.reads (ho i x hm hown)

theorem reads_mono {r : Room} {thread : Option Nat} {q q' : Nat} (h : r.Reads thread q)
    (hle : q' ≤ q) : r.Reads thread q' := by
  obtain ⟨m, hm, hq⟩ := h
  exact ⟨m, hm, Nat.le_trans hle hq⟩

theorem Orderly.hasPlace_of_reads (hw : w.Orderly) {thread : Option Nat} {q : Nat}
    (h : (w.room i).Reads thread q) : (w.room i).HasPlace thread := by
  obtain ⟨m, hm, -⟩ := h
  exact hw.placed hm

theorem Further.recoverable (h : w.Further w') {server : Server} {thread : Option Nat} {q : Nat} :
    w'.Recoverable server i thread q ↔ w.Recoverable server i thread q := by
  unfold Recoverable
  rw [h.happenings, h.scope]

end Reference.World

namespace Session

open Reference Reference.World

variable {σ : Type} [Backing σ] [Steady σ]

structure Tracks (w : World) (delivered : Fin roomCount → Happening → Prop) (s : Session σ) :
    Prop where
  orderly : w.Orderly
  records : s.server.Records w
  kept : ∀ {key kept}, s.server.receipts.get? key = some kept →
    ∃ u, w.Allows u ∧ key = ⟨me, ⟨u.scope, .shared⟩⟩ ∧ kept = ⟨u.event, u.sequence⟩
  prompt : s.tracker.Prompt
  policy : s.tracker.policy = {}
  reader : s.tracker.reader = me
  awaited : s.tracker.awaited = none
  held : s.tracker.held = .empty
  written : s.tracker.book.WrittenThrough []
  knows : s.tracker.chronicle.Knows w delivered
  covers : ∀ {scope q}, s.tracker.book.covers scope q = true →
    ∃ i thread, scope = w.scope i thread ∧ (w.room i).Reads thread q

structure Follows (w : World) (s : Session σ) : Prop extends Tracks w w.Happened s where
  complete : ∀ {i : Fin roomCount} {thread q}, (w.room i).Reads thread q →
    s.tracker.book.covers (w.scope i thread) q = true
  recoverable : ∀ {i : Fin roomCount} {thread q}, (w.room i).Reads thread q →
    w.Recoverable s.server i thread q
  chronological : Chronological s.history s.tracker.book
  rooms : ∀ {name room}, s.rooms.get? name = some room ↔
    ∃ i : Fin roomCount, (w.room i).happenings ≠ [] ∧ name = roomName i ∧ room = roomId i
  checks : s.checks = Check.standard
  holding : s.holding = false

structure Awaits (w : World) (here there : List Update) (s : Session σ) : Prop
    extends Tracks w w.Happened s where
  allowsHere : ∀ u ∈ here, w.Allows u
  allowsThere : ∀ u ∈ there, w.Allows u
  complete : ∀ {i : Fin roomCount} {thread q}, (w.room i).Reads thread q →
    s.tracker.book.covers (w.scope i thread) q = true ∨
      Update.Read here (w.scope i thread) q ∨ Update.Read there (w.scope i thread) q
  recoverable : ∀ {i : Fin roomCount} {thread q}, (w.room i).Reads thread q →
    s.tracker.book.covers (w.scope i thread) q = true ∨
      Update.Read there (w.scope i thread) q → w.Recoverable s.server i thread q
  chronological : Chronological s.history s.tracker.book
  rooms : ∀ {name room}, s.rooms.get? name = some room ↔
    ∃ i : Fin roomCount, (w.room i).happenings ≠ [] ∧ name = roomName i ∧ room = roomId i
  checks : s.checks = Check.standard
  holding : s.holding = false

structure Ends (w : World) (s s' : Session σ) : Prop extends Follows w s' where
  focus : s'.tracker.focus = s.tracker.focus
  current : s'.current = s.current
  ambient : s'.tracker.ambient = s.tracker.ambient

variable {w w' : World} {s : Session σ} {t : Tracker σ} {a : Answer σ}
  {here there : List Update} {delivered : Fin roomCount → Happening → Prop}

theorem Tracks.reads_of_covers (h : s.Tracks w delivered) {i : Fin roomCount}
    {thread : Option Nat} (hp : (w.room i).HasPlace thread) {q : Nat}
    (hc : s.tracker.book.covers (w.scope i thread) q = true) : (w.room i).Reads thread q := by
  obtain ⟨j, thread', hs, hreads⟩ := h.covers hc
  obtain ⟨rfl, rfl⟩ := h.orderly.scope_inj hp (h.orderly.hasPlace_of_reads hreads) hs
  exact hreads

theorem Tracks.further (h : s.Tracks w delivered) (hw : w.Further w') :
    s.Tracks w' delivered where
  orderly := hw.orderly
  records := h.records.congr hw.happenings hw.numbered (fun _ => rfl) rfl rfl rfl
  kept hk := by
    obtain ⟨u, ⟨i, x, hm, hu, hreads⟩, hkey, hkept⟩ := h.kept hk
    refine ⟨u, ⟨i, x, ?_, ?_, hw.reads hreads⟩, hkey, hkept⟩
    · rw [hw.happenings]
      exact hm
    · rw [hw.scope]
      exact hu
  prompt := h.prompt
  policy := h.policy
  reader := h.reader
  awaited := h.awaited
  held := h.held
  written := h.written
  knows := h.knows.congr hw.happenings
  covers hc := by
    obtain ⟨i, thread, hs, hreads⟩ := h.covers hc
    exact ⟨i, thread, hs.trans (hw.scope i thread).symm, hw.reads hreads⟩

omit [Backing σ] [Steady σ] in
theorem has_of_allows {server : Server} (hs : server.Records w) (hw : w.Orderly) {u : Update}
    (hu : w.Allows u) : server.Has u := by
  obtain ⟨i, h, hm, rfl, -⟩ := hu
  obtain ⟨m, hf, ht⟩ := hs.find_timeline hw hm
  exact ⟨m, hf, ht.sequence⟩

theorem Tracks.receives (h : s.Tracks w delivered) {us : List Update} {server : Server}
    (hr : s.server.Receives me us server) (hus : ∀ u ∈ us, w.Allows u) :
    ({ s with server } : Session σ).Tracks w delivered where
  orderly := h.orderly
  records := hr.records h.records
  kept hk := by
    rcases hr.only hk with hk | ⟨u, hu, hkey, hkept⟩
    · exact h.kept hk
    · exact ⟨u, hus u hu, hkey, hkept⟩
  prompt := h.prompt
  policy := h.policy
  reader := h.reader
  awaited := h.awaited
  held := h.held
  written := h.written
  knows := h.knows
  covers := h.covers

omit [Backing σ] [Steady σ] in
theorem reads_of_allows {us : List Update} (hus : ∀ u ∈ us, w.Allows u) {scope : Scope} {q : Nat}
    (h : Update.Read us scope q) : ∃ i thread, scope = w.scope i thread ∧
      (w.room i).Reads thread q := by
  obtain ⟨u, hu, hs, hle⟩ := h
  obtain ⟨i, x, -, rfl, hreads⟩ := hus u hu
  exact ⟨i, x.thread, hs, reads_mono hreads hle⟩

/-- A session that carries out an answer whose updates the account allows tracks it still.  All
that the tracker read on this device, and that was news, the server knows. -/
theorem Tracks.execute (h : ({ s with tracker := t } : Session σ).Tracks w delivered)
    (ha : a.Reads t here there) (hwritten : a.tracker.book.WrittenThrough [])
    (hhere : ∀ u ∈ here, w.Allows u) (hthere : ∀ u ∈ there, w.Allows u) :
    ∃ actions server unsaved, a.reply = .ok actions ∧
      ({ s with tracker := a.tracker, dated := s.dated || a.dated } : Session σ).execute actions =
        ({ s with tracker := a.tracker, dated := s.dated || a.dated, server, unsaved }, .ok ()) ∧
      ({ s with tracker := a.tracker, dated := s.dated || a.dated, server, unsaved } :
        Session σ).Tracks w delivered ∧
      s.server.Receives me here server ∧
      ∀ scope q, Update.Read here scope q → t.book.covers scope q = true ∨
        Update.Read there scope q ∨ server.Backs me scope q := by
  obtain ⟨actions, hreply, htell⟩ := ha.reply
  have hhas : ∀ u ∈ here, s.server.Has u :=
    fun u hu => has_of_allows h.records h.orderly (hhere u hu)
  obtain ⟨server, unsaved, hcarry, hreceives, hbacks⟩ := carry_of_has fetchNow
    (s := { s with tracker := a.tracker, dated := s.dated || a.dated }) h.records.rejecting hhas
    htell.only
  refine ⟨actions, server, unsaved, hreply, hcarry, ?_, hreceives, fun scope q hq => ?_⟩
  · have htracks : ({ s with tracker := a.tracker } : Session σ).Tracks w delivered := by
      refine ⟨h.orderly, h.records, h.kept, ha.prompt, ha.view.policy.trans h.policy,
        ha.view.reader.trans h.reader, ha.view.awaited.trans h.awaited,
        ha.view.held.trans h.held, hwritten, ?_, fun hc => ?_⟩
      · rw [ha.view.chronicle]
        exact h.knows
      · rcases (ha.covers _ _).1 hc with hc | hc | hc
        · exact h.covers hc
        · exact reads_of_allows hhere hc
        · exact reads_of_allows hthere hc
    have hr := htracks.receives hreceives hhere
    exact ⟨hr.orderly, hr.records, hr.kept, hr.prompt, hr.policy, hr.reader, hr.awaited, hr.held,
      hr.written, hr.knows, hr.covers⟩
  · rcases htell.news scope q hq with hc | hc | ⟨u, hu, rfl, hle, hsent⟩
    · exact .inl hc
    · exact .inr (.inl hc)
    · obtain ⟨kept, hk, hle'⟩ := hbacks u hu hsent
      exact .inr (.inr ⟨kept, hk, Nat.le_trans hle hle'⟩)

/-- Once the awaited updates are read, the session is where the account is. -/
theorem Awaits.execute (h : ({ s with tracker := t } : Session σ).Awaits w here there)
    (ha : a.Reads t here there) (hwritten : a.tracker.book.WrittenThrough []) :
    ∃ actions s', a.reply = .ok actions ∧
      ({ s with tracker := a.tracker, dated := s.dated || a.dated } : Session σ).execute actions =
        (s', .ok ()) ∧ ({ s with tracker := t } : Session σ).Ends w s' := by
  obtain ⟨actions, server, unsaved, hreply, hexecute, htracks, hreceives, hbacks⟩ :=
    h.toTracks.execute ha hwritten h.allowsHere h.allowsThere
  refine ⟨actions, _, hreply, hexecute, ⟨htracks, fun {i thread q} hq => ?_,
    fun {i thread q} hq => ?_, ?_, h.rooms, h.checks, h.holding⟩, ha.view.focus, rfl,
    ha.view.ambient⟩
  · exact (ha.covers _ _).2 (h.complete hq)
  · have hold : w.Recoverable s.server i thread q → w.Recoverable server i thread q :=
      Or.imp_right fun hb => hreceives.backs hb
    rcases h.complete hq with hc | hc | hc
    · exact hold (h.recoverable hq (.inl hc))
    · rcases hbacks _ _ hc with hc | hc | hc
      · exact hold (h.recoverable hq (.inl hc))
      · exact hold (h.recoverable hq (.inr hc))
      · exact .inr hc
    · exact hold (h.recoverable hq (.inr hc))
  · exact h.chronological.mono fun _ _ hc => (ha.covers _ _).2 (.inl hc)

/-- A session that is where the account is passes every audit, and stays there. -/
theorem Follows.observe (h : s.Follows w) (move : String) :
    ∃ s', s.observe move = .ok s' ∧ s.Ends w s' := by
  obtain ⟨history, hchronological, hobserve⟩ :=
    observe_eq h.checks h.written h.chronological move
  refine ⟨_, hobserve, ⟨⟨h.orderly, h.records, h.kept, ⟨h.prompt.shared, h.prompt.debounce,
    h.prompt.waiting⟩, h.policy, h.reader, h.awaited, h.held, h.written.listed, h.knows,
    h.covers⟩, h.complete, h.recoverable, hchronological, h.rooms, h.checks, h.holding⟩,
    rfl, rfl, rfl⟩

theorem Ends.trans {s₁ s₂ : Session σ} {w₁ w₂ : World} (h : s.Ends w₁ s₁) (h' : s₁.Ends w₂ s₂) :
    s.Ends w₂ s₂ :=
  ⟨h'.toFollows, h'.focus.trans h.focus, h'.current.trans h.current, h'.ambient.trans h.ambient⟩

theorem Awaits.settleAnswer (h : ({ s with tracker := t } : Session σ).Awaits w here there)
    (ha : a.Reads t here there) (hwritten : a.tracker.book.WrittenThrough []) (move : String) :
    ∃ s', s.settleAnswer a move = .ok s' ∧ ({ s with tracker := t } : Session σ).Ends w s' := by
  obtain ⟨actions, s₁, hreply, hexecute, hends⟩ := h.execute ha hwritten
  obtain ⟨s₂, hobserve, hends'⟩ := hends.toFollows.observe move
  refine ⟨s₂, ?_, hends.trans hends'⟩
  simp only [Session.settleAnswer, after, hreply, settle, hexecute, hobserve]

/-- A session that is where the account was awaits what the account has read since.  Receipts for
some of it may have come in already. -/
theorem Follows.awaits (h : s.Follows w) (hw : w.Further w') {us : List Update} {server : Server}
    (hr : s.server.Receives me us server) (hus : ∀ u ∈ us, w'.Allows u)
    (hhere : ∀ u ∈ here, w'.Allows u) (hthere : ∀ u ∈ there, w'.Allows u)
    (hreads : ∀ {i : Fin roomCount} {thread q}, (w'.room i).Reads thread q →
      (w.room i).Reads thread q ∨ Update.Read here (w.scope i thread) q ∨
        Update.Read there (w.scope i thread) q)
    (hrecoverable : ∀ {i : Fin roomCount} {thread q}, (w'.room i).Reads thread q →
      Update.Read there (w.scope i thread) q → w.Recoverable server i thread q) :
    ({ s with server } : Session σ).Awaits w' here there where
  toTracks := by
    have ht := (h.toTracks.further hw).receives hr hus
    refine ⟨ht.orderly, ht.records, ht.kept, ht.prompt, ht.policy, ht.reader, ht.awaited,
      ht.held, ht.written, ht.knows.of_iff fun i x => ?_, ht.covers⟩
    show x ∈ (w.room i).happenings ↔ x ∈ (w'.room i).happenings
    rw [hw.happenings]
  allowsHere := hhere
  allowsThere := hthere
  complete {i thread q} hq := by
    rw [hw.scope]
    exact (hreads hq).imp_left h.complete
  recoverable {i thread q} hq hc := by
    rw [hw.scope] at hc
    rw [hw.recoverable]
    rcases hc with hc | hc
    · refine (h.recoverable (h.reads_of_covers (fun place ht => ?_) hc)).imp_right hr.backs
      rw [← hw.happenings]
      exact hw.orderly.hasPlace_of_reads hq place ht
    · exact hrecoverable hq hc
  chronological := h.chronological
  rooms {name room} := by
    simp only [hw.happenings]
    exact h.rooms
  checks := h.checks
  holding := h.holding

/-! ## What the user looks at -/

structure Watches (w : World) (s : Session σ) : Prop extends Follows w s where
  looks : w.Looks s.tracker.focus s.current
  own : w.ReadsOwn

theorem Follows.look (h : s.Follows w) (ambient : Ambient) (focus : Option Focus)
    (current : Option RoomId) :
    ({ s with current, tracker := { s.tracker with ambient, awaited := none, focus } } :
      Session σ).Follows w :=
  ⟨⟨h.orderly, h.records, h.kept, ⟨h.prompt.shared, h.prompt.debounce, h.prompt.waiting⟩,
    h.policy, h.reader, rfl, h.held, h.written, h.knows, h.covers⟩, h.complete, h.recoverable,
    h.chronological, h.rooms, h.checks, h.holding⟩

theorem Follows.same (h : s.Follows w) (hw : w'.Orderly) (hrooms : w'.rooms = w.rooms)
    (hnumbered : w'.nextSequence = w.nextSequence) : s.Follows w' := by
  obtain ⟨rooms, gaze, nextSequence, labels⟩ := w
  obtain ⟨rooms', gaze', nextSequence', labels'⟩ := w'
  cases hrooms
  cases hnumbered
  exact ⟨⟨hw, h.records.congr (fun _ => rfl) rfl (fun _ => rfl) rfl rfl rfl, h.kept, h.prompt,
    h.policy, h.reader, h.awaited, h.held, h.written, h.knows.congr fun _ => rfl, h.covers⟩,
    h.complete, h.recoverable, h.chronological, h.rooms, h.checks, h.holding⟩

/-- An operation that reads what the account has read since, and that looks where the account
looks, is carried out and passes every audit. -/
theorem Watches.answer (h : s.Watches w) {ambient : Ambient} {focus : Option Focus}
    {current : Option RoomId}
    (ha : a.Reads { s.tracker with ambient, awaited := none, focus } here [])
    (hwritten : a.tracker.book.WrittenThrough []) (hw : w.Further w')
    (hhere : ∀ u ∈ here, w'.Allows u)
    (hreads : ∀ {i : Fin roomCount} {thread q}, (w'.room i).Reads thread q →
      (w.room i).Reads thread q ∨ Update.Read here (w.scope i thread) q)
    (hlooks : w'.Looks focus current) (move : String) :
    ∃ actions s₁ s', a.reply = .ok actions ∧
      ({ s with current, tracker := a.tracker, dated := s.dated || a.dated } :
        Session σ).execute actions = (s₁, .ok ()) ∧
      s₁.observe move = .ok s' ∧ s'.Watches w' ∧ s'.tracker.ambient = ambient := by
  have hnone : ∀ u ∈ ([] : List Update), w'.Allows u := fun _ hu => absurd hu List.not_mem_nil
  have hawaits := (h.toFollows.look ambient focus current).awaits hw (.refl me [] _) hnone hhere
    hnone (fun hr => (hreads hr).imp_right .inl) fun _ hr => absurd hr Update.not_read_nil
  obtain ⟨actions, s₁, hreply, hexecute, hends⟩ :=
    Awaits.execute (s := { s with current }) hawaits ha hwritten
  obtain ⟨s', hobserve, hends'⟩ := hends.toFollows.observe move
  have hall := hends.trans hends'
  refine ⟨actions, s₁, s', hreply, hexecute, hobserve, ⟨hall.toFollows, ?_, hw.readsOwn h.own⟩,
    hall.ambient⟩
  rw [hall.focus, hall.current]
  exact hlooks

end Session

def Command.isForget : Command → Bool
  | .forget _ => true
  | _ => false

theorem Tracker.writtenThrough_handle {σ : Type} [Backing σ] [Steady σ] {t : Tracker σ}
    (hw : t.book.WrittenThrough []) (hc : t.chronicle.Sound) {c : Command}
    (hforget : c.isForget = false) : (t.handle c).tracker.book.WrittenThrough [] := by
  have hall : Viewed.capacity σ = .unlimited := Steady.unlimited
  show (t.after [.command c]).book.WrittenThrough []
  refine writtenThrough_after hw ?_ (fun m _ => ?_) (fun m _ => ?_) fun a ha hfail => ?_
  · rw [hall]
    exact ⟨hc, fun _ => trivial, fun _ => ⟨trivial, fun _ _ => trivial⟩, fun _ => trivial,
      fun _ => trivial, fun _ => trivial⟩
  · rw [hall]
    exact m.within_unlimited
  · rw [hall]
    exact m.forgetsWithin_unlimited
  · cases List.mem_singleton.1 ha
    obtain ⟨room, hroom⟩ := forget_of_storageFailed hfail
    cases hroom
    cases hforget

end ReadTracking
