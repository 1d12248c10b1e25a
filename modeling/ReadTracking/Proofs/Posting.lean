import ReadTracking.Proofs.Looking

/-!
# Something happens and is delivered

Somebody sends a draft, and the event is delivered at once.  The server records one event more,
the tracker indexes it, and it is read where the user watches or where it is of the user's own
making.  That is what the account says of the happening.
-/

set_option autoImplicit false

namespace ReadTracking

open Backing Reference Reference.World

/-! ## One event more in the chronicle -/

namespace Chronicle

theorem ingest_unlimited (c : Chronicle) (room : RoomId) (batch : List Message) :
    c.ingest room batch false = c.appendAll room batch := rfl

variable {c : Chronicle} {w : World} {i : Fin roomCount} {x : Happening} {m : Message}

theorem Knows.ingest_fresh (hc : c.Knows w w.Happened) (hw : w.Orderly) (hf : w.Fresh i x)
    (ht : (w.add i x).Tells i x m) :
    (c.ingest (roomId i) [m] false).1.Knows (w.add i x) (w.add i x).Happened ∧
      ∃ p, (c.ingest (roomId i) [m] false).2 = [p] ∧ p.id = x.id ∧
        p.scope = (w.add i x).scope i x.thread ∧ p.position.sequence = x.sequence := by
  have hw' := hw.add hf
  have hc' := hc.add hw i x
  have hm : x ∈ ((w.add i x).room i).happenings := mem_add.2 (.inr ⟨rfl, rfl⟩)
  have hbefore : ∀ h' ∈ ((w.add i x).room i).happenings, h'.sequence < x.sequence →
      w.Happened i h' := by
    intro h' hm' hlt
    rcases mem_add.1 hm' with hm' | ⟨-, rfl⟩
    · exact hm'
    · exact absurd hlt (Nat.lt_irrefl _)
  have hnew : c.get? m.id = none := by
    cases hg : c.get? m.id with
    | none => rfl
    | some e =>
      obtain ⟨j, h', hd, hid, -⟩ := hc.of_get? hg
      have hlt := hw.lt_of_fresh hf hd
      exact absurd (eventNumbered_injective (ht.id.symm.trans hid)) (Nat.ne_of_gt hlt)
  have hone : c.ingest (roomId i) [m] false = ((c.append m).1, [c.placing m]) := by
    rw [ingest_unlimited]
    simp only [Chronicle.appendAll, ht.room, if_true, append_eq hnew, Option.toList_some,
      List.append_nil]
  rw [hone]
  refine ⟨(hc'.append hw' hm ht hbefore).of_iff fun j y => mem_add.symm, _, rfl, ht.id,
    hc'.scopeFor hw' hm ht hbefore, ht.sequence⟩

end Chronicle

/-! ## Where the user watches -/

namespace Turn

variable {σ : Type} {t : Tracker σ} {w : World} {i : Fin roomCount} {x : Happening}
  {current : Option RoomId} {p : Placed}

/-- A new message is read if the account watches its scope, and then its scope is read to the
end. -/
theorem mem_followed (hl : w.Looks t.focus current) (hw : w.Orderly)
    (hx : (w.room i).HasPlace x.thread) (hp : p.scope = w.scope i x.thread) {u : Update} :
    u ∈ followed t (roomId i) [p] false ↔ w.watches i x.thread = true ∧
      u ∈ (horizon t.chronicle (w.scope i x.thread)).toList := by
  have hends : ∀ {thread}, (w.room i).HasPlace thread →
      (u ∈ (if false || [p].any fun q => q.scope == w.scope i thread then
        (horizon t.chronicle (w.scope i thread)).toList else []) ↔
        x.thread = thread ∧ u ∈ (horizon t.chronicle (w.scope i x.thread)).toList) := by
    intro thread ht
    rw [Bool.false_or, List.any_cons, List.any_nil, Bool.or_false, hp,
      hw.beq_scope hx ht]
    by_cases e : x.thread = thread
    · subst e
      simp
    · simp [e]
  unfold followed watches
  rw [hl.focus]
  cases hg : w.gaze with
  | none => simp
  | some g =>
    simp only [Option.map_some]
    by_cases hroom : g.room = i
    · subst hroom
      have hplace := hl.place hg
      cases hlive : g.live with
      | false => simp
      | true =>
        simp only [and_self, if_true, List.mem_append, beq_self_eq_true, Bool.true_and]
        have hmain := hends (HasPlace.none (w.room g.room))
        cases ht : g.thread with
        | none =>
          rw [show (w.scope g.room none).thread = none from rfl]
          dsimp only
          rw [or_iff_left List.not_mem_nil]
          refine hmain.trans (and_congr_left fun _ => ?_)
          cases x.thread <;> simp
        | some place =>
          rw [ht] at hplace
          rw [show (w.scope g.room (some place)).thread =
            some ((w.room g.room).rootId place) from rfl]
          dsimp only
          refine (or_congr hmain (hends hplace)).trans ?_
          rw [← or_and_right]
          refine and_congr_left fun _ => ?_
          cases x.thread with
          | none => simp
          | some place' =>
            simp only [Option.isNone_some, Bool.false_or, beq_iff_eq, reduceCtorEq, false_or]
            exact eq_comm
    · have hne : roomId g.room ≠ roomId i := fun he => hroom (roomId_injective he)
      simp [hroom, hne]

theorem mem_owned {e : Indexed} (he : t.chronicle.get? p.id = some e) {own : Bool}
    (hsender : e.message.sender = t.reader ↔ own = true) {u : Update} :
    u ∈ owned t [p] ↔ own = true ∧ u = ⟨p.scope, p.id, p.position.sequence⟩ := by
  rw [owned]
  cases own with
  | true => simp [he, hsender.2 rfl]
  | false =>
    have hne : e.message.sender ≠ t.reader := fun hs => by simpa using hsender.1 hs
    simp [he, hne]

/-- What happened last is all that is read where the user watches. -/
theorem mem_followed_fresh (hl : (w.add i x).Looks t.focus current) (hw : w.Orderly)
    (hf : w.Fresh i x) (hc : t.chronicle.Knows (w.add i x) (w.add i x).Happened)
    (hp : p.scope = (w.add i x).scope i x.thread) {u : Update} :
    u ∈ followed t (roomId i) [p] false ↔
      u ∈ (if w.watches i x.thread then [x] else []).map ((w.add i x).update i) := by
  have hw' := hw.add hf
  have hm : x ∈ ((w.add i x).room i).happenings := mem_add.2 (.inr ⟨rfl, rfl⟩)
  have hplace := hw'.hasPlace hm
  have hheads : ∀ y, y ∈ ((w.add i x).room i).heads [x.thread] ↔ y = x := by
    intro y
    rw [Room.mem_heads]
    constructor
    · rintro ⟨hy, ht, hmax⟩
      rcases mem_add.1 hy with hy | ⟨-, rfl⟩
      · have hle := hmax x hm (List.mem_singleton.1 ht).symm
        exact absurd (hw.lt_of_fresh hf hy) (Nat.not_lt.2 hle)
      · rfl
    · rintro rfl
      refine ⟨hm, List.mem_singleton.2 rfl, fun z hz _ => ?_⟩
      rcases mem_add.1 hz with hz | ⟨-, rfl⟩
      · exact Nat.le_of_lt (hw.lt_of_fresh hf hz)
      · exact Nat.le_refl _
  rw [mem_followed hl hw' hplace hp, hc.mem_horizon hw' (fun _ => id) hplace]
  show w.watches i x.thread = true ∧ _ ↔ _
  cases w.watches i x.thread with
  | false => simp
  | true => simp only [true_and, List.mem_map, hheads, if_true, List.mem_singleton]

theorem mem_owned_fresh (hw : w.Orderly) (hf : w.Fresh i x)
    (hc : t.chronicle.Knows (w.add i x) (w.add i x).Happened) (hr : t.reader = Session.me)
    (hid : p.id = x.id) (hp : p.scope = (w.add i x).scope i x.thread)
    (hq : p.position.sequence = x.sequence) {u : Update} :
    u ∈ owned t [p] ↔ u ∈ (if x.own then [x] else []).map ((w.add i x).update i) := by
  have hm : x ∈ ((w.add i x).room i).happenings := mem_add.2 (.inr ⟨rfl, rfl⟩)
  obtain ⟨e, he, ht, -⟩ := hc.get?_id (hw.add hf) hm
  have hsender : e.message.sender = t.reader ↔ x.own = true := by
    rw [hr]
    exact ht.sender
  rw [mem_owned (hid ▸ he) hsender, hp, hid, hq]
  cases x.own with
  | true => simp [World.update]
  | false => simp

end Turn

/-! ## Posting -/

theorem Reference.World.Fresh.thread_of_own {w : World} {i : Fin roomCount} {x : Happening}
    (hf : w.Fresh i x) (ho : x.own = true) : x.thread = none := by
  refine hf.main ?_
  rcases (Bool.or_eq_true _ _).mp ho with hr | hr
  · exact .inr (eq_of_beq hr)
  · refine .inl ?_
    unfold Happening.canRoot
    rw [hr, Bool.or_true]

/-- What happens is read where it is watched and where it is of the user's own making. -/
theorem Reference.World.Fresh.post_eq_change {w : World} {i : Fin roomCount} {x : Happening}
    (hf : w.Fresh i x) : ∃ f, w.post i x x.own = (w.add i x).change i f ∧
      ((w.add i x).room i).ReadsMore ((if w.watches i x.thread then [x] else []) ++
        if x.own then [x] else []) (f ((w.add i x).room i)) := by
  have hone : ∀ (b : Bool) (r : Room), x ∈ r.happenings →
      r.ReadsMore (if b then [x] else []) (if b then r.advance x.thread x.sequence else r) := by
    intro b r hm
    cases b with
    | true => exact Room.readsMore_advance hm
    | false => exact .nil r
  have hm : x ∈ ((w.add i x).room i).happenings := mem_add.2 (.inr ⟨rfl, rfl⟩)
  have hfirst := hone (w.watches i x.thread) _ hm
  have hsecond := hone x.own _ (hfirst.happenings ▸ hm)
  refine ⟨fun r =>
    let r := if w.watches i x.thread then r.advance x.thread x.sequence else r
    if x.own then r.advance none x.sequence else r, rfl, ?_⟩
  cases ho : x.own with
  | true =>
    rw [ho] at hsecond
    rw [hf.thread_of_own ho] at hfirst hsecond ⊢
    exact hfirst.append hsecond
  | false =>
    rw [ho] at hsecond
    exact hfirst.append hsecond

theorem Reference.World.Looks.add {w : World} {focus : Option Focus} {current : Option RoomId}
    (h : w.Looks focus current) (i : Fin roomCount) (x : Happening) :
    (w.add i x).Looks focus current where
  place {g} hg place ht := by
    have hlt := h.place hg place ht
    rw [happenings_add]
    split
    next e =>
      rw [← e, List.length_append]
      omega
    next => exact hlt
  focus := by
    rw [h.focus]
    refine Option.map_congr fun g hg => ?_
    rw [scope_add (h.place hg)]
  current := h.current

theorem Reference.World.reads_add {w : World} {i j : Fin roomCount} {x : Happening}
    {thread : Option Nat} {q : Nat} :
    ((w.add i x).room j).Reads thread q ↔ (w.room j).Reads thread q := by
  unfold Room.Reads
  rw [marks_add]

theorem Reference.World.ReadsOwn.post {w : World} (h : w.ReadsOwn) (i : Fin roomCount)
    {x : Happening} (hf : w.Fresh i x) : (w.post i x x.own).ReadsOwn := by
  intro j y hm ho
  rw [happenings_post, mem_add] at hm
  rw [reads_post]
  rcases hm with hm | ⟨rfl, rfl⟩
  · exact .inl (h j y hm ho)
  · exact .inr ⟨rfl, .inr ⟨ho, hf.thread_of_own ho, Nat.le_refl _⟩⟩

namespace Session

variable {σ : Type} [Backing σ] [Steady σ] {w : World} {s : Session σ} {i : Fin roomCount}
  {x : Happening}

theorem Follows.posted (h : s.Follows w) (hf : w.Fresh i x) {server : Server}
    {rooms : Table String RoomId} {delivered : Table EventId Unit} {chronicle : Chronicle}
    (hrecords : server.Records (w.add i x)) (hreceipts : server.receipts = s.server.receipts)
    (hrooms : ∀ {name room}, rooms.get? name = some room ↔ ∃ j : Fin roomCount,
      ((w.room j).happenings ≠ [] ∨ j = i) ∧ name = roomName j ∧ room = roomId j)
    (hknows : chronicle.Knows (w.add i x) (w.add i x).Happened) :
    ({ s with server, rooms, delivered, tracker := { s.tracker with chronicle } } :
      Session σ).Follows (w.add i x) where
  orderly := h.orderly.add hf
  records := hrecords
  kept {key kept} hk := by
    rw [hreceipts] at hk
    obtain ⟨u, ⟨j, y, hm, hu, hreads⟩, hkey, hkept⟩ := h.kept hk
    refine ⟨u, ⟨j, y, mem_add.2 (.inl hm), ?_, reads_add.2 hreads⟩, hkey, hkept⟩
    rw [scope_add (h.orderly.hasPlace hm)]
    exact hu
  prompt := ⟨h.prompt.shared, h.prompt.debounce, h.prompt.waiting⟩
  policy := h.policy
  reader := h.reader
  awaited := h.awaited
  held := h.held
  written := h.written
  knows := hknows
  covers {scope q} hc := by
    obtain ⟨j, thread, hs, hreads⟩ := h.covers hc
    refine ⟨j, thread, ?_, reads_add.2 hreads⟩
    rw [scope_add (h.orderly.hasPlace_of_reads hreads)]
    exact hs
  complete {j thread q} hq := by
    have hq := reads_add.1 hq
    rw [scope_add (h.orderly.hasPlace_of_reads hq)]
    exact h.complete hq
  recoverable {j thread q} hq := by
    have hq := reads_add.1 hq
    rcases h.recoverable hq with ⟨y, hm, hy⟩ | ⟨kept, hk, hle⟩
    · exact .inl ⟨y, mem_add.2 (.inl hm), hy⟩
    · refine .inr ⟨kept, ?_, hle⟩
      rw [hreceipts, scope_add (h.orderly.hasPlace_of_reads hq)]
      exact hk
  chronological := h.chronological
  rooms {name room} := by
    rw [hrooms]
    refine exists_congr fun j => and_congr_left fun _ => ?_
    rw [happenings_add]
    by_cases e : j = i
    · simp [e]
    · simp [e]
  checks := h.checks
  holding := h.holding

/-- A draft is sent and delivered at once: nothing is refused, and the session is where the account
is. -/
theorem Watches.post (h : s.Watches w) {server : Server} {rooms : Table String RoomId} {d : Draft}
    (hrecords : server.Records w) (hreceipts : server.receipts = s.server.receipts)
    (hcontains : server.timelines.contains (roomId i) = true)
    (hrooms : ∀ {name room}, rooms.get? name = some room ↔ ∃ j : Fin roomCount,
      ((w.room j).happenings ≠ [] ∨ j = i) ∧ name = roomName j ∧ room = roomId j)
    (hd : w.Drafted i x d) (hf : w.Fresh i x) (move : String) :
    ∃ s₁ events s₂ s', ({ s with server, rooms } : Session σ).post (roomId i) (sender x) [d] =
        .ok (s₁, events) ∧
      s₁.deliver (roomId i) events false = .ok s₂ ∧ s₂.observe move = .ok s' ∧
      s'.Watches (w.post i x x.own) ∧ s'.tracker.ambient = s.tracker.ambient := by
  obtain ⟨m, server', hsend, htells, hrecords', hreceipts'⟩ :=
    hrecords.send h.orderly hd hf hcontains
  obtain ⟨hknows, p, hplaced, hid, hscope, hsequence⟩ := h.knows.ingest_fresh h.orderly hf htells
  have hw := h.orderly.add hf
  have hm : x ∈ ((w.add i x).room i).happenings := mem_add.2 (.inr ⟨rfl, rfl⟩)
  have hlooks := h.looks.add i x
  have hfollows : ({ s with
      server := server', rooms
      delivered := s.delivered.insertAll ([m].map fun m : Message => (m.id, ()))
      tracker := { s.tracker with
        chronicle := (s.tracker.chronicle.ingest (roomId i) [m] false).1 } } :
      Session σ).Follows (w.add i x) :=
    h.posted hf hrecords' (hreceipts'.trans hreceipts) hrooms hknows
  have ha := Tracker.reads_receive h.prompt (by rw [h.policy]) h.held (roomId i) [m] false rfl
    hplaced.symm
  have hwritten : (s.tracker.receive (roomId i) [m] false).tracker.book.WrittenThrough [] :=
    Tracker.writtenThrough_handle (c := .receive (roomId i) [m] false) h.written h.knows.sound
      rfl
  have hhere := fun u => Turn.mem_followed_fresh (u := u) (t := { s.tracker with
    chronicle := (s.tracker.chronicle.ingest (roomId i) [m] false).1 }) hlooks h.orderly hf hknows
    hscope
  have hthere := fun u => Turn.mem_owned_fresh (u := u) (t := { s.tracker with
    chronicle := (s.tracker.chronicle.ingest (roomId i) [m] false).1 }) h.orderly hf hknows
    h.reader hid hscope hsequence
  obtain ⟨f, hpost, hmore⟩ := hf.post_eq_change
  rw [hpost]
  have hallows := allows_update hmore
  rw [List.map_append] at hallows
  have hnone : ∀ u ∈ ([] : List Update), ((w.add i x).change i f).Allows u :=
    fun _ hu => absurd hu List.not_mem_nil
  have hfurther := hw.further_change hmore
  have hawaits := hfollows.awaits hfurther (.refl me [] _) hnone
    (fun u hu => hallows u (List.mem_append_left _ ((hhere u).1 hu)))
    (fun u hu => hallows u (List.mem_append_right _ ((hthere u).1 hu)))
    (fun {j thread q} hr => ?_) (fun {j thread q} hr hread => ?_)
  · obtain ⟨actions, s₂, hreply, hexecute, hends⟩ := hawaits.execute ha hwritten
    obtain ⟨s', hobserve, hends'⟩ := hends.toFollows.observe move
    have hall := hends.trans hends'
    refine ⟨{ s with server := server', rooms }, [m], s₂, s', ?_, ?_, hobserve,
      ⟨hall.toFollows, ?_, ?_⟩, hall.ambient⟩
    · simp only [Session.post, hsend]
    · simp only [Session.deliver, after, hreply, hexecute]
    · rw [hall.focus, hall.current]
      exact hlooks.change hmore.happenings
    · rw [← hpost]
      exact h.own.post i hf
  · refine (reads_of_change hmore hr).imp_right fun hread => ?_
    rw [List.map_append, Update.read_append] at hread
    exact hread.imp (Update.read_congr hhere).2 (Update.read_congr hthere).2
  · obtain ⟨y, hy, hs, hq⟩ := read_update.1 ((Update.read_congr hthere).1 hread)
    obtain ⟨ho, rfl⟩ : x.own = true ∧ y = x := by
      cases ho : x.own with
      | true => exact ⟨rfl, List.mem_singleton.1 (by simpa [ho] using hy)⟩
      | false => simp [ho] at hy
    have hplace : ((w.add i y).room j).HasPlace thread := by
      intro place ht
      rw [← hfurther.happenings]
      exact hfurther.orderly.hasPlace_of_reads hr place ht
    obtain ⟨rfl, rfl⟩ := hw.scope_inj hplace (hw.hasPlace hm) hs
    exact .inl ⟨y, hm, ho, rfl, hq⟩

theorem Follows.rooms_of_ne (h : s.Follows w) (hj : (w.room i).happenings ≠ []) {name : String}
    {room : RoomId} : s.rooms.get? name = some room ↔ ∃ j : Fin roomCount,
      ((w.room j).happenings ≠ [] ∨ j = i) ∧ name = roomName j ∧ room = roomId j := by
  rw [h.rooms]
  refine exists_congr fun j => and_congr_left fun _ => ?_
  constructor
  · exact .inl
  · rintro (hj' | rfl)
    · exact hj'
    · exact hj

theorem Watches.sends (h : s.Watches w) (hj : (w.room i).happenings ≠ []) {d : Draft}
    (hd : w.Drafted i x d) (hf : w.Fresh i x) (move : String) :
    ∃ s', (do
        let room ← s.roomOf (roomName i)
        let (s, events) ← s.post room (sender x) [d]
        let s ← s.deliver room events false
        s.observe move) = .ok s' ∧ s'.Watches (w.post i x x.own) ∧
      s'.tracker.ambient = s.tracker.ambient := by
  obtain ⟨s₁, events, s₂, s', hpost, hdeliver, hobserve, hwatches, hambient⟩ := h.post h.records
    rfl (h.records.contains_timelines hj) (h.rooms_of_ne hj) hd hf move
  refine ⟨s', ?_, hwatches, hambient⟩
  simp only [h.roomOf hj, bind, Except.bind, hpost, hdeliver, hobserve]

theorem Watches.botSends (h : s.Watches w) (hj : (w.room i).happenings ≠ []) {d : Draft}
    (hd : w.Drafted i x d) (hf : w.Fresh i x) (ho : x.own = false) :
    ∃ s', s.botSends (roomName i) [d] = .ok s' ∧ s'.Watches (w.post i x false) ∧
      s'.tracker.ambient = s.tracker.ambient := by
  have hsender : sender x = bot := by simp [sender, ho]
  have hsends := h.sends hj hd hf "receive_messages"
  rw [hsender, ho] at hsends
  exact hsends

theorem Watches.userSends (h : s.Watches w) (hj : (w.room i).happenings ≠ []) {d : Draft}
    (hd : w.Drafted i x d) (hf : w.Fresh i x) (ho : x.own = true) :
    ∃ s', s.userSends (roomName i) [d] = .ok s' ∧ s'.Watches (w.post i x true) ∧
      s'.tracker.ambient = s.tracker.ambient := by
  have hsender : sender x = me := sender_eq_me_iff.2 ho
  have hsends := h.sends hj hd hf "send_own"
  rw [hsender, ho] at hsends
  exact hsends

/-! ## Joining rooms -/

theorem Watches.createRoom (h : s.Watches w) (i : Fin roomCount) :
    ∃ s', s.createRoom (roomName i) = .ok (s', roomId i) ∧ s'.Watches (w.join i) ∧
      s'.tracker.ambient = s.tracker.ambient := by
  obtain ⟨server, hcreate, hrecords, hreceipts, hcontains⟩ := h.records.createRoom (i := i)
  have hrooms : ∀ {name room}, (s.rooms.insert (roomName i) (roomId i)).get? name = some room ↔
      ∃ j : Fin roomCount, ((w.room j).happenings ≠ [] ∨ j = i) ∧ name = roomName j ∧
        room = roomId j := by
    intro name room
    rw [Table.get?_insert]
    by_cases e : name = roomName i
    · rw [if_pos e]
      constructor
      · intro he
        cases he
        exact ⟨i, .inr rfl, e, rfl⟩
      · rintro ⟨j, -, hname, rfl⟩
        rw [roomName_injective (e.symm.trans hname)]
    · rw [if_neg e, h.rooms]
      constructor
      · rintro ⟨j, hj, hname⟩
        exact ⟨j, .inl hj, hname⟩
      · rintro ⟨j, hj | rfl, hname⟩
        · exact ⟨j, hj, hname⟩
        · exact absurd hname.1 e
  obtain ⟨s₁, events, s₂, s', hpost, hdeliver, hobserve, hwatches⟩ := h.post hrecords hreceipts
    hcontains hrooms .joined (fresh_join w i) "create_room"
  refine ⟨s', ?_, hwatches⟩
  have hsender : sender ⟨none, w.nextSequence, none, .join⟩ = me := rfl
  rw [hsender] at hpost
  simp only [Session.createRoom, hcreate, bind, Except.bind, hpost, hdeliver, hobserve]
  rfl

theorem Watches.createRooms (h : s.Watches w) (is : List (Fin roomCount)) :
    ∃ s', Session.createRooms (is.map roomName) s = .ok s' ∧ s'.Watches (is.foldl join w) ∧
      s'.tracker.ambient = s.tracker.ambient := by
  induction is generalizing s w with
  | nil => exact ⟨s, rfl, h, rfl⟩
  | cons i is ih =>
    obtain ⟨s₁, hcreate, hwatches₁, hambient₁⟩ := h.createRoom i
    obtain ⟨s', hrest, hwatches, hambient⟩ := ih hwatches₁
    refine ⟨s', ?_, hwatches, hambient.trans hambient₁⟩
    simp only [List.map_cons, Session.createRooms, hcreate, bind, Except.bind]
    exact hrest

end Session

end ReadTracking
