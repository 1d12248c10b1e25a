import ReadTracking.Proofs.Following

/-!
# Looking around and reading

The user looks at a room, at a thread or nowhere, marks a room as read, or jumps to a message.
The account says of each which happenings that reads, and the tracker makes one update for each
of them.  So the session is where the account is afterwards.
-/

set_option autoImplicit false

namespace ReadTracking

namespace Reference

/-! ## Reading in the account -/

namespace Room

variable {r r' r'' : Room} {hs hs' : List Happening} {thread : Option Nat} {q : Nat}

structure ReadsMore (r : Room) (hs : List Happening) (r' : Room) : Prop where
  happenings : r'.happenings = r.happenings
  happened : ∀ h ∈ hs, h ∈ r.happenings
  reads : ∀ {thread q}, r'.Reads thread q ↔
    r.Reads thread q ∨ ∃ h ∈ hs, thread = h.thread ∧ q ≤ h.sequence

theorem ReadsMore.nil (r : Room) : r.ReadsMore [] r where
  happenings := rfl
  happened h hh := by cases hh
  reads := by simp

theorem ReadsMore.append (h : r.ReadsMore hs r') (h' : r'.ReadsMore hs' r'') :
    r.ReadsMore (hs ++ hs') r'' where
  happenings := h'.happenings.trans h.happenings
  happened x hx := by
    rcases List.mem_append.1 hx with hx | hx
    · exact h.happened x hx
    · exact h.happenings ▸ h'.happened x hx
  reads := by
    intro thread q
    rw [h'.reads, h.reads, or_assoc]
    simp only [List.mem_append, or_and_right, exists_or]

theorem ReadsMore.filter (h : r.ReadsMore hs r') {p : Happening → Bool}
    (hp : ∀ x ∈ hs, p x = false → r.Reads x.thread x.sequence) :
    r.ReadsMore (hs.filter p) r' where
  happenings := h.happenings
  happened x hx := h.happened x (List.mem_filter.1 hx).1
  reads := by
    intro thread q
    rw [h.reads]
    constructor
    · rintro (hr | ⟨x, hx, rfl, hq⟩)
      · exact .inl hr
      · cases hpx : p x with
        | true => exact .inr ⟨x, List.mem_filter.2 ⟨hx, hpx⟩, rfl, hq⟩
        | false => exact .inl (World.reads_mono (hp x hx hpx) hq)
    · rintro (hr | ⟨x, hx, ht, hq⟩)
      · exact .inl hr
      · exact .inr ⟨x, (List.mem_filter.1 hx).1, ht, hq⟩

theorem readsMore_advance {h : Happening} (hm : h ∈ r.happenings) :
    r.ReadsMore [h] (r.advance h.thread h.sequence) where
  happenings := rfl
  happened x hx := List.mem_singleton.1 hx ▸ hm
  reads := by
    intro thread q
    rw [reads_advance]
    simp

def heads (r : Room) (threads : List (Option Nat)) : List Happening :=
  threads.flatMap fun thread => (r.inScope thread).filter fun h => r.head thread == some h.sequence

theorem mem_heads {threads : List (Option Nat)} {h : Happening} :
    h ∈ r.heads threads ↔ h ∈ r.happenings ∧ h.thread ∈ threads ∧
      ∀ h' ∈ r.happenings, h'.thread = h.thread → h'.sequence ≤ h.sequence := by
  unfold heads inScope
  simp only [List.mem_flatMap, List.mem_filter, beq_iff_eq]
  constructor
  · rintro ⟨thread, ht, ⟨hm, rfl⟩, hhead⟩
    exact ⟨hm, ht, fun h' hm' ht' => (head_eq_some_iff.1 hhead).2 h' hm' ht'⟩
  · rintro ⟨hm, ht, hmax⟩
    exact ⟨h.thread, ht, ⟨hm, rfl⟩, head_eq_some_iff.2 ⟨⟨h, hm, rfl, rfl⟩, hmax⟩⟩

theorem readsMore_foldl_advanceToHead (threads : List (Option Nat)) (r : Room) :
    r.ReadsMore (r.heads threads) (threads.foldl (·.advanceToHead ·) r) := by
  have hone : ∀ (r : Room) (thread : Option Nat),
      r.ReadsMore (r.heads [thread]) (r.advanceToHead thread) := by
    intro r thread
    refine ⟨happenings_advanceToHead thread, fun h hm => (mem_heads.1 hm).1, ?_⟩
    intro thread' q
    rw [reads_advanceToHead]
    refine or_congr_right ?_
    constructor
    · rintro ⟨rfl, h, hm, ht, hq⟩
      cases hhead : r.head thread' with
      | none => exact absurd ht (head_eq_none_iff.1 hhead h hm)
      | some m =>
        obtain ⟨⟨x, hx, hxt, hxm⟩, hmax⟩ := head_eq_some_iff.1 hhead
        refine ⟨x, mem_heads.2 ⟨hx, List.mem_singleton.2 hxt, fun h' hm' ht' => ?_⟩, hxt.symm, ?_⟩
        · exact hxm ▸ hmax h' hm' (ht'.trans hxt)
        · exact hxm ▸ Nat.le_trans hq (hmax h hm ht)
    · rintro ⟨x, hx, rfl, hq⟩
      obtain ⟨hx, ht, -⟩ := mem_heads.1 hx
      have ht := List.mem_singleton.1 ht
      exact ⟨ht, x, hx, ht, hq⟩
  induction threads generalizing r with
  | nil => exact .nil r
  | cons thread threads ih =>
    have hrest := ih (r.advanceToHead thread)
    have hheads : (r.advanceToHead thread).heads threads = r.heads threads := by
      unfold heads inScope head inScope
      rw [happenings_advanceToHead]
    have hsplit : r.heads (thread :: threads) = r.heads [thread] ++ r.heads threads := by
      unfold heads
      rw [List.flatMap_cons, List.flatMap_singleton]
    rw [hheads] at hrest
    rw [hsplit]
    exact (hone r thread).append hrest

def threads (r : Room) : List (Option Nat) := none :: r.roots.map some

theorem readsMore_markRead (r : Room) : r.ReadsMore (r.heads r.threads)
    (r.roots.foldl (fun r root => r.advanceToHead (some root)) (r.advanceToHead none)) := by
  have hall := readsMore_foldl_advanceToHead r.threads r
  rw [threads, List.foldl_cons, List.foldl_map] at hall
  exact hall

end Room

namespace World

def update (w : World) (i : Fin roomCount) (h : Happening) : Update :=
  ⟨w.scope i h.thread, h.id, h.sequence⟩

variable {w : World} {i : Fin roomCount} {hs : List Happening} {f : Room → Room}

theorem read_update {scope : Scope} {q : Nat} : Update.Read (hs.map (w.update i)) scope q ↔
    ∃ h ∈ hs, scope = w.scope i h.thread ∧ q ≤ h.sequence := by
  simp only [Update.Read, List.mem_map, exists_exists_and_eq_and]
  rfl

theorem change_id (w : World) (i : Fin roomCount) : w.change i id = w := by
  unfold change
  congr 1
  exact Vector.set_getElem_self i.isLt

theorem change_change (w : World) (i : Fin roomCount) (f g : Room → Room) :
    (w.change i f).change i g = w.change i (g ∘ f) := by
  simp [change]

theorem happenings_change (hf : (f (w.room i)).happenings = (w.room i).happenings)
    (j : Fin roomCount) : ((w.change i f).room j).happenings = (w.room j).happenings := by
  rw [room_change]
  split
  next e => rw [e, hf]
  next => rfl

theorem Orderly.further_change (hw : w.Orderly) (hf : (w.room i).ReadsMore hs (f (w.room i))) :
    w.Further (w.change i f) where
  orderly := by
    refine hw.change hf.happenings fun {thread m} hm => ?_
    rcases hf.reads.1 ⟨m, hm, Nat.le_refl m⟩ with hr | ⟨h, hh, rfl, -⟩
    · exact hw.hasPlace_of_reads hr
    · exact hw.hasPlace (hf.happened h hh)
  happenings := happenings_change hf.happenings
  numbered := rfl
  reads {j thread q} hr := by
    rw [room_change]
    split
    next e =>
      subst e
      exact hf.reads.2 (.inl hr)
    next => exact hr

theorem allows_update (hf : (w.room i).ReadsMore hs (f (w.room i))) :
    ∀ u ∈ hs.map (w.update i), (w.change i f).Allows u := by
  intro u hu
  obtain ⟨h, hh, rfl⟩ := List.mem_map.1 hu
  refine ⟨i, h, ?_, ?_, ?_⟩
  · rw [happenings_change hf.happenings]
    exact hf.happened h hh
  · rw [scope_congr (happenings_change hf.happenings i)]
    rfl
  · rw [room_change, if_pos rfl]
    exact hf.reads.2 (.inr ⟨h, hh, rfl, Nat.le_refl _⟩)

theorem reads_of_change (hf : (w.room i).ReadsMore hs (f (w.room i))) {j : Fin roomCount}
    {thread : Option Nat} {q : Nat} (hr : ((w.change i f).room j).Reads thread q) :
    (w.room j).Reads thread q ∨
      Update.Read (hs.map (w.update i)) (w.scope j thread) q := by
  rw [room_change] at hr
  split at hr
  next e =>
    subst e
    rcases hf.reads.1 hr with hr | ⟨h, hh, rfl, hq⟩
    · exact .inl hr
    · exact .inr (read_update.2 ⟨h, hh, rfl, hq⟩)
  next => exact .inl hr

theorem Looks.change {focus : Option Focus} {current : Option RoomId} (h : w.Looks focus current)
    (hf : (f (w.room i)).happenings = (w.room i).happenings) :
    (w.change i f).Looks focus current where
  place {g} hg place ht := by
    rw [happenings_change hf]
    exact h.place hg place ht
  focus := by
    rw [h.focus]
    refine congrArg (w.gaze.map ·) (funext fun g => ?_)
    rw [scope_congr (happenings_change hf g.room)]
  current := h.current

theorem looks_at (w : World) (g : Gaze) (hp : (w.room g.room).HasPlace g.thread) :
    ({ w with gaze := some g } : World).Looks
      (some ⟨roomId g.room, (w.scope g.room g.thread).thread, g.live⟩) (some (roomId g.room)) where
  place h := by
    cases h
    exact hp
  focus := rfl
  current := rfl

theorem looks_nowhere (w : World) : ({ w with gaze := none } : World).Looks none none where
  place h := by cases h
  focus := rfl
  current := rfl

end World

end Reference

/-! ## Reading on this device -/

open Backing Reference Reference.World

section

variable {c : Chronicle} {w : World} {delivered : Fin roomCount → Happening → Prop}
  {i : Fin roomCount}

theorem Chronicle.Knows.mem_horizon (hc : c.Knows w delivered) (hw : w.Orderly)
    (hall : ∀ h ∈ (w.room i).happenings, delivered i h) {thread : Option Nat}
    (hp : (w.room i).HasPlace thread) {u : Update} :
    u ∈ (Turn.horizon c (w.scope i thread)).toList ↔
      u ∈ ((w.room i).heads [thread]).map (w.update i) := by
  rw [List.mem_map]
  rcases hc.horizon_cases hw hall hp with ⟨h, hm, rfl, he, hmax⟩ | ⟨he, hno⟩
  · rw [he]
    simp only [Option.toList_some, List.mem_singleton]
    constructor
    · rintro rfl
      exact ⟨h, Room.mem_heads.2 ⟨hm, List.mem_singleton.2 rfl, hmax⟩, rfl⟩
    · rintro ⟨x, hx, rfl⟩
      obtain ⟨hx, ht, hmax'⟩ := Room.mem_heads.1 hx
      have ht := List.mem_singleton.1 ht
      have hle := hmax x hx ht
      have hle' := hmax' h hm ht.symm
      have hid : x.id = h.id := congrArg Server.eventNumbered (Nat.le_antisymm hle hle')
      obtain ⟨-, rfl⟩ := hw.id_inj hx hm hid
      rfl
  · rw [he]
    simp only [Option.toList_none, List.not_mem_nil, false_iff]
    rintro ⟨x, hx, -⟩
    obtain ⟨hx, ht, -⟩ := Room.mem_heads.1 hx
    exact hno x hx (List.mem_singleton.1 ht)

theorem Reference.World.Orderly.hasPlace_of_mem_threads (hw : w.Orderly) {thread : Option Nat}
    (ht : thread ∈ (w.room i).threads) : (w.room i).HasPlace thread := by
  rcases List.mem_cons.1 ht with rfl | ht
  · exact HasPlace.none _
  · obtain ⟨place, hp, rfl⟩ := List.mem_map.1 ht
    obtain ⟨root, hr⟩ := Chronicle.Knows.root_of_mem_roots hw hp
    exact hasPlace_of_getElem? hr

theorem Chronicle.Knows.scopes_eq (hc : c.Knows w delivered) (hw : w.Orderly)
    (hall : ∀ h ∈ (w.room i).happenings, delivered i h) :
    c.scopes (roomId i) = (w.room i).threads.map (w.scope i) := by
  rw [Chronicle.scopes, hc.threads_eq hw hall, Room.threads, List.map_cons, List.map_map,
    List.map_map]
  rfl

end

namespace Session

variable {σ : Type} [Backing σ] [Steady σ] {w : World} {s : Session σ} {i : Fin roomCount}

/-- The ends of a room that are not read are the updates of those heads that the account has not
read. -/
theorem Follows.mem_unreadEnds (h : s.Follows w) {u : Update} :
    u ∈ s.tracker.unreadEnds (roomId i) ↔
      u ∈ (((w.room i).heads (w.room i).threads).filter fun x =>
        !s.tracker.book.covers (w.scope i x.thread) x.sequence).map (w.update i) := by
  have hends : ∀ u, u ∈ (s.tracker.chronicle.scopes (roomId i)).filterMap
      (Turn.horizon s.tracker.chronicle) ↔
      u ∈ ((w.room i).heads (w.room i).threads).map (w.update i) := by
    intro u
    rw [h.knows.scopes_eq h.orderly fun _ => id, List.filterMap_map, List.mem_filterMap]
    have hone : ∀ thread ∈ (w.room i).threads,
        ((Turn.horizon s.tracker.chronicle ∘ w.scope i) thread = some u ↔
          u ∈ ((w.room i).heads [thread]).map (w.update i)) := by
      intro thread ht
      rw [← h.knows.mem_horizon h.orderly (fun _ => id) (h.orderly.hasPlace_of_mem_threads ht),
        Option.mem_toList]
      rfl
    simp only [List.mem_map, Room.mem_heads]
    constructor
    · rintro ⟨thread, ht, he⟩
      obtain ⟨x, hx, rfl⟩ := List.mem_map.1 ((hone thread ht).1 he)
      obtain ⟨hm, hxt, hmax⟩ := Room.mem_heads.1 hx
      exact ⟨x, ⟨hm, List.mem_singleton.1 hxt ▸ ht, hmax⟩, rfl⟩
    · rintro ⟨x, ⟨hm, ht, hmax⟩, rfl⟩
      refine ⟨x.thread, ht, (hone _ ht).2 (List.mem_map_of_mem ?_)⟩
      exact Room.mem_heads.2 ⟨hm, List.mem_singleton.2 rfl, hmax⟩
  rw [Tracker.unreadEnds, List.mem_filter, hends]
  simp only [List.mem_map, List.mem_filter]
  constructor
  · rintro ⟨⟨x, hx, rfl⟩, hcov⟩
    exact ⟨x, ⟨hx, hcov⟩, rfl⟩
  · rintro ⟨x, ⟨hx, hcov⟩, rfl⟩
    exact ⟨⟨x, hx, rfl⟩, hcov⟩

variable {hs : List Happening} {f : Room → Room} {here : List Update} {a : Answer σ}

/-- An operation that reads on in one room, as the account does, and that looks where the account
looks. -/
theorem Watches.reads (h : s.Watches w) {ambient : Ambient} {gaze : Option Gaze}
    {focus : Option Focus} {current : Option RoomId}
    (ha : a.Reads { s.tracker with ambient, awaited := none, focus } here [])
    (hwritten : a.tracker.book.WrittenThrough [])
    (hf : (w.room i).ReadsMore hs (f (w.room i)))
    (hhere : ∀ u, u ∈ here ↔ u ∈ hs.map (w.update i))
    (hlooks : ({ w with gaze } : World).Looks focus current) (move : String) :
    ∃ actions s₁ s', a.reply = .ok actions ∧
      ({ s with current, tracker := a.tracker, dated := s.dated || a.dated } :
        Session σ).execute actions = (s₁, .ok ()) ∧
      s₁.observe move = .ok s' ∧ s'.Watches (({ w with gaze } : World).change i f) ∧
      s'.tracker.ambient = ambient := by
  have hfurther := (h.orderly.look gaze).further_change hf
  refine h.answer ha hwritten
    ⟨hfurther.orderly, hfurther.happenings, hfurther.numbered, hfurther.reads⟩
    (fun u hu => allows_update hf u ((hhere u).1 hu)) (fun {j thread q} hr => ?_)
    (hlooks.change hf.happenings) move
  refine (reads_of_change hf hr).imp_right ?_
  rintro ⟨u, hu, hread⟩
  exact ⟨u, (hhere u).2 hu, hread⟩

theorem Watches.settleAnswer (h : s.Watches w) {ambient : Ambient} {gaze : Option Gaze}
    {focus : Option Focus} {current : Option RoomId}
    (ha : a.Reads { s.tracker with ambient, awaited := none, focus } here [])
    (hwritten : a.tracker.book.WrittenThrough [])
    (hf : (w.room i).ReadsMore hs (f (w.room i)))
    (hhere : ∀ u, u ∈ here ↔ u ∈ hs.map (w.update i))
    (hlooks : ({ w with gaze } : World).Looks focus current) (move : String) :
    ∃ s', ({ s with current } : Session σ).settleAnswer a move = .ok s' ∧
      s'.Watches (({ w with gaze } : World).change i f) ∧ s'.tracker.ambient = ambient := by
  obtain ⟨actions, s₁, s', hreply, hexecute, hobserve, hwatches, hambient⟩ :=
    h.reads ha hwritten hf hhere hlooks move
  refine ⟨s', ?_, hwatches, hambient⟩
  simp only [Session.settleAnswer, after, hreply, settle, hexecute, hobserve]

/-! ## Moves -/

theorem Follows.roomOf (h : s.Follows w) (hj : (w.room i).happenings ≠ []) :
    s.roomOf (roomName i) = .ok (roomId i) := by
  unfold Session.roomOf
  rw [h.rooms.2 ⟨i, hj, rfl, rfl⟩]

theorem Follows.find_label (h : s.Follows w) {x : Happening} (hm : x ∈ (w.room i).happenings)
    (ht : x.targetable = true) : s.find (roomId i) x.label = .ok x.id := by
  unfold find
  rw [h.records.resolve_label h.orderly hm ht]
  rfl

theorem Follows.eventOf_label (h : s.Follows w) {x : Happening} (hm : x ∈ (w.room i).happenings)
    (ht : x.targetable = true) : s.eventOf (roomName i) x.label = .ok x.id := by
  simp only [eventOf, h.roomOf (List.ne_nil_of_mem hm), bind, Except.bind, h.find_label hm ht]

theorem Watches.enter (h : s.Watches w) (hj : (w.room i).happenings ≠ []) :
    ∃ s', s.enter (roomName i) = .ok s' ∧
      s'.Watches (({ w with gaze := some ⟨i, none, true⟩ } : World).change i
        (·.advanceToHead none)) ∧ s'.tracker.ambient = s.tracker.ambient := by
  have ha := Tracker.reads_viewRoom h.prompt (roomId i)
  have hwritten : (s.tracker.viewRoom (roomId i)).tracker.book.WrittenThrough [] :=
    Tracker.writtenThrough_handle (c := .viewRoom (roomId i)) h.written h.knows.sound rfl
  obtain ⟨s', hsettle, hwatches⟩ := h.settleAnswer (f := (·.advanceToHead none)) ha hwritten
    (Room.readsMore_foldl_advanceToHead [none] (w.room i))
    (fun u => h.knows.mem_horizon h.orderly (fun _ => id) (HasPlace.none _))
    (w.looks_at ⟨i, none, true⟩ (HasPlace.none _)) "go_to"
  refine ⟨s', ?_, hwatches⟩
  simp only [Session.enter, h.roomOf hj, bind, Except.bind]
  exact hsettle

omit [Backing σ] [Steady σ] in
theorem reads_unlooked (hawaited : s.tracker.awaited = none) {there : List Update}
    (ha : a.Reads s.tracker here there) :
    a.Reads { s.tracker with awaited := none } here there := by
  have ht : ({ s.tracker with awaited := none } : Tracker σ) = s.tracker := by rw [← hawaited]
  rw [ht]
  exact ha

theorem Watches.settleLook (h : s.Watches w) {ambient : Ambient} {gaze : Option Gaze}
    {focus : Option Focus} {current : Option RoomId}
    (ha : a.Reads { s.tracker with ambient, awaited := none, focus } [] [])
    (hwritten : a.tracker.book.WrittenThrough [])
    (hlooks : ({ w with gaze } : World).Looks focus current) (move : String) :
    ∃ s', ({ s with current } : Session σ).settleAnswer a move = .ok s' ∧
      s'.Watches { w with gaze } ∧ s'.tracker.ambient = ambient := by
  obtain ⟨s', hsettle, hwatches⟩ := h.settleAnswer (i := Reference.roomOf 0) (f := id) ha
    hwritten (Room.ReadsMore.nil _) (fun u => Iff.rfl) hlooks move
  rw [change_id] at hwatches
  exact ⟨s', hsettle, hwatches⟩

theorem Watches.leave (h : s.Watches w) :
    ∃ s', s.leave = .ok s' ∧ s'.Watches { w with gaze := none } ∧
      s'.tracker.ambient = s.tracker.ambient := by
  have ha := Tracker.reads_leave h.prompt
  have hwritten : s.tracker.leave.tracker.book.WrittenThrough [] :=
    Tracker.writtenThrough_handle (c := .leave) h.written h.knows.sound rfl
  exact h.settleLook ha hwritten (looks_nowhere w) "go_home"

theorem Watches.closeThread (h : s.Watches w) :
    ∃ s', s.closeThread = .ok s' ∧
      s'.Watches { w with gaze := w.gaze.map fun g => { g with thread := none } } ∧
      s'.tracker.ambient = s.tracker.ambient := by
  have ha := Tracker.reads_closeThread h.prompt
  rw [h.awaited] at ha
  have hwritten : s.tracker.closeThread.tracker.book.WrittenThrough [] :=
    Tracker.writtenThrough_handle (c := .closeThread) h.written h.knows.sound rfl
  refine h.settleLook ha hwritten ⟨fun {g} hg => ?_, ?_, ?_⟩ "close_thread"
  · obtain ⟨g', -, rfl⟩ := Option.map_eq_some_iff.1 hg
    exact HasPlace.none _
  · rw [h.looks.focus, Option.map_map, Option.map_map]
    rfl
  · rw [h.looks.current, Option.map_map]
    rfl

theorem Watches.markRead (h : s.Watches w) (hj : (w.room i).happenings ≠ []) :
    ∃ s', s.markRead (roomName i) = .ok s' ∧
      s'.Watches (w.change i fun r =>
        r.roots.foldl (fun r root => r.advanceToHead (some root)) (r.advanceToHead none)) ∧
      s'.tracker.ambient = s.tracker.ambient := by
  have ha := reads_unlooked h.awaited (Tracker.reads_markRoomRead h.prompt (roomId i))
  have hwritten : (s.tracker.markRoomRead (roomId i)).tracker.book.WrittenThrough [] :=
    Tracker.writtenThrough_handle (c := .markRoomRead (roomId i)) h.written h.knows.sound rfl
  have hall := Room.readsMore_markRead (w.room i)
  have hunread := hall.filter fun x hx (hp : (!s.tracker.book.covers (w.scope i x.thread)
      x.sequence) = false) => by
    have hplace := h.orderly.hasPlace (hall.happened x hx)
    exact h.reads_of_covers hplace (by simpa using hp)
  obtain ⟨s', hsettle, hwatches⟩ := h.settleAnswer (f := fun r =>
    r.roots.foldl (fun r root => r.advanceToHead (some root)) (r.advanceToHead none)) ha hwritten
    hunread (fun u => h.mem_unreadEnds) h.looks "mark_as_read"
  refine ⟨s', ?_, hwatches⟩
  simp only [Session.markRead, h.roomOf hj, bind, Except.bind]
  exact hsettle

theorem Follows.root_of_mem_roots (h : s.Follows w) {root : Nat} (hr : root ∈ (w.room i).roots)
    {x : Happening} (hx : (w.room i).happenings[root]? = some x) :
    x ∈ (w.room i).happenings ∧ x.targetable = true ∧ x.thread = none := by
  obtain ⟨reply, hm, ht⟩ := Room.mem_roots.1 hr
  obtain ⟨x', hx', hcan, -⟩ := h.orderly.rooted hm ht
  cases hx.symm.trans hx'
  have hxm := List.mem_of_getElem? hx
  exact ⟨hxm, targetable_of_canRoot hcan, h.orderly.main hxm (.inl hcan)⟩

theorem Watches.openThread (h : s.Watches w) {g : Gaze} (hg : w.gaze = some g) {root : Nat}
    (hr : root ∈ (w.room g.room).roots) {x : Happening}
    (hx : (w.room g.room).happenings[root]? = some x) :
    ∃ s', s.openThread x.label = .ok s' ∧
      s'.Watches ((({ w with gaze := some ⟨g.room, some root, true⟩ } : World).change g.room
        (·.advanceToHead (some root))).change g.room (·.advance none x.sequence)) ∧
      s'.tracker.ambient = s.tracker.ambient := by
  obtain ⟨hm, htarget, hmain⟩ := h.root_of_mem_roots hr hx
  have hplace := hasPlace_of_getElem? hx
  obtain ⟨e, he, ht, -, hq⟩ := h.knows.get?_id h.orderly hm
  have hknown : s.tracker.chronicle.rootKnown (roomId g.room) x.id = true := by
    simp only [Chronicle.rootKnown, he, ht.room, beq_self_eq_true]
  have hposition : s.tracker.chronicle.position? x.id = some e.position := by
    rw [Chronicle.position?, he, Option.map_some]
  have ha := Tracker.reads_viewThread h.prompt hknown hposition
  have hwritten : (s.tracker.viewThread (roomId g.room) x.id).tracker.book.WrittenThrough [] :=
    Tracker.writtenThrough_handle (c := .viewThread (roomId g.room) x.id) h.written
      h.knows.sound rfl
  have hscope : Scope.ofThread (roomId g.room) x.id = w.scope g.room (some root) := by
    rw [← rootId_of_getElem? hx]
    rfl
  have hupdate : (⟨.ofRoom (roomId g.room), x.id, e.position.sequence⟩ : Update) =
      w.update g.room x := by
    rw [World.update, hmain, hq]
    rfl
  have hlooks := w.looks_at ⟨g.room, some root, true⟩ hplace
  dsimp only at hlooks
  rw [← hscope] at hlooks
  rw [hscope, hupdate] at ha
  have hroot : (((w.room g.room).advanceToHead (some root))).ReadsMore [x]
      (((w.room g.room).advanceToHead (some root)).advance none x.sequence) := by
    rw [← hmain]
    refine Room.readsMore_advance ?_
    rw [Room.happenings_advanceToHead]
    exact hm
  have hmore : (w.room g.room).ReadsMore ((w.room g.room).heads [some root] ++ [x])
      (((·.advance none x.sequence) ∘ (·.advanceToHead (some root))) (w.room g.room)) :=
    (Room.readsMore_foldl_advanceToHead [some root] _).append hroot
  obtain ⟨actions, s₁, s', hreply, hexecute, hobserve, hwatches⟩ :=
    h.reads ha hwritten hmore (fun u => by
      rw [List.map_append, List.mem_append, List.mem_append,
        h.knows.mem_horizon h.orderly (fun _ => id) hplace, List.map_singleton])
      hlooks "open_thread"
  rw [← change_change] at hwatches
  refine ⟨s', ?_, hwatches⟩
  have hcurrent : s.current = some (roomId g.room) := by rw [h.looks.current, hg, Option.map_some]
  simp only [Session.openThread, hcurrent, h.find_label hm htarget, bind, Except.bind, after,
    hreply, settle, hexecute]
  exact hobserve

theorem Watches.memberReads (h : s.Watches w) {x : Happening} (hm : x ∈ (w.room i).happenings)
    (htarget : x.targetable = true) :
    ∃ s', s.memberReads (roomName i) x.label = .ok s' ∧ s'.Watches w ∧
      s'.tracker.ambient = s.tracker.ambient := by
  have hne : alice ≠ s.tracker.reader := by
    rw [h.reader]
    decide
  have ha := reads_unlooked h.awaited
    (Tracker.reads_receipt_of_ne h.prompt hne (roomId i) x.id .shared .scope)
  have hwritten :
      (s.tracker.receipt (roomId i) alice x.id .shared .scope).tracker.book.WrittenThrough [] :=
    Tracker.writtenThrough_handle (c := .receipt (roomId i) alice x.id .shared .scope)
      h.written h.knows.sound rfl
  obtain ⟨s', hsettle, hwatches⟩ := h.settleLook ha hwritten h.looks "other_user_reads"
  refine ⟨s', ?_, hwatches⟩
  have hj := h.roomOf (List.ne_nil_of_mem hm)
  simp only [Session.memberReads, hj, h.eventOf_label hm htarget, bind, Except.bind]
  exact hsettle

theorem Watches.readElsewhere (h : s.Watches w) {x : Happening}
    (hm : x ∈ (w.room i).happenings) (htarget : x.targetable = true) :
    ∃ s', s.readElsewhere (roomName i) x.label .scope = .ok s' ∧
      s'.Watches (w.change i (·.advance x.thread x.sequence)) ∧
      s'.tracker.ambient = s.tracker.ambient := by
  obtain ⟨e, he, -, hs, hq⟩ := h.knows.get?_id h.orderly hm
  have hmore := Room.readsMore_advance hm
  have hfurther := h.orderly.further_change (f := (·.advance x.thread x.sequence)) hmore
  have hallows := allows_update (f := (·.advance x.thread x.sequence)) hmore
  have hhas := has_of_allows (h.records.congr hfurther.happenings rfl (fun _ => rfl) rfl rfl rfl)
    hfurther.orderly (hallows _ (List.mem_singleton.2 rfl))
  obtain ⟨server, htake, hreceives, hbacks⟩ := Server.takeReceipt_of_has me
    h.records.rejecting hhas (List.mem_singleton.2 rfl)
  have ha := Tracker.reads_receipt h.prompt (roomId i) he .shared
  rw [h.reader, hs, hq] at ha
  have hwritten : (s.tracker.receipt (roomId i) me x.id .shared .scope).tracker.book.WrittenThrough
      [] := Tracker.writtenThrough_handle (c := .receipt (roomId i) me x.id .shared .scope)
    h.written h.knows.sound rfl
  have hnone : ∀ u ∈ ([] : List Update), (w.change i (·.advance x.thread x.sequence)).Allows u :=
    fun _ hu => absurd hu List.not_mem_nil
  have hawaits := h.toFollows.awaits hfurther hreceives hallows hnone hallows
    (fun hr => (reads_of_change (f := (·.advance x.thread x.sequence)) hmore hr).imp_right .inr)
    fun {j thread q} _ hread => by
      obtain ⟨hscope, hle⟩ := Update.read_singleton.1 hread
      obtain ⟨kept, hk, hle'⟩ := hbacks
      rw [← hscope] at hk
      exact .inr ⟨kept, hk, Nat.le_trans hle hle'⟩
  obtain ⟨s', hsettle, hends⟩ := Awaits.settleAnswer (s := { s with server }) (t := s.tracker)
    hawaits ha hwritten "other_session_reads"
  refine ⟨s', ?_, ⟨hends.toFollows, ?_, hfurther.readsOwn h.own⟩, hends.ambient⟩
  · have hj := h.roomOf (List.ne_nil_of_mem hm)
    simp only [Session.readElsewhere, hj, h.eventOf_label hm htarget, bind, Except.bind,
      h.records.scopeOf h.orderly hm htarget]
    rw [show w.scope i x.thread = (w.update i x).scope from rfl,
      show x.id = (w.update i x).event from rfl, htake]
    exact hsettle
  · rw [hends.focus, hends.current]
    exact h.looks.change (f := (·.advance x.thread x.sequence)) hmore.happenings

theorem Watches.later (h : s.Watches w) (nanos : Nat) :
    ({ s with tracker := { s.tracker with ambient := s.tracker.ambient.wait nanos } } :
      Session σ).Watches w := by
  have hwatches : Session.Watches w { s with tracker := { s.tracker with
      ambient := s.tracker.ambient.wait nanos, awaited := none } } :=
    ⟨h.toFollows.look (s.tracker.ambient.wait nanos) s.tracker.focus s.current, h.looks, h.own⟩
  rw [← h.awaited] at hwatches
  exact hwatches

theorem Watches.tick (h : s.Watches w) :
    ∃ s', s.settleAnswer (s.tracker.tick s.tracker.ambient.elapsed) "tick" = .ok s' ∧
      s'.Watches w ∧ s'.tracker.ambient = s.tracker.ambient := by
  have ha := reads_unlooked h.awaited (Tracker.reads_tick h.prompt)
  have hwritten := Tracker.writtenThrough_handle (c := .tick s.tracker.ambient.elapsed) h.written
    h.knows.sound rfl
  exact h.settleLook ha hwritten h.looks "tick"

theorem Watches.wait (h : s.Watches w) (millis : Nat) :
    ∃ s', s.wait millis = .ok s' ∧ s'.Watches w ∧
      s'.tracker.ambient = s.tracker.ambient.wait (millis * Ambient.nanosPerMilli) :=
  (h.later (millis * Ambient.nanosPerMilli)).tick

/-! ## Jumps -/

theorem Follows.isLatest_eq (h : s.Follows w) {x : Happening} (hm : x ∈ (w.room i).happenings) :
    ((s.tracker.chronicle.latest (w.scope i x.thread)).any fun head => head.message.id == x.id) =
      ((w.room i).head x.thread == some x.sequence) := by
  have hplace := h.orderly.hasPlace hm
  rcases h.knows.latest_cases h.orderly (fun _ => id) hplace with
    ⟨y, hy, ht, ⟨e, he, hid, -⟩, hmax⟩ | ⟨-, hno⟩
  · have hhead : (w.room i).head x.thread = some y.sequence :=
      Room.head_eq_some_iff.2 ⟨⟨y, hy, ht, rfl⟩, hmax⟩
    rw [he, hhead]
    show (e.message.id == x.id) = (some y.sequence == some x.sequence)
    rw [hid, Bool.eq_iff_iff, beq_iff_eq, beq_iff_eq, Option.some.injEq]
    exact ⟨eventNumbered_injective, congrArg Server.eventNumbered⟩
  · exact absurd rfl (hno x hm)

/-- What keeps a jump from a message is that it is in a thread. -/
theorem Follows.barrier_eq (h : s.Follows w) {x : Happening} (hm : x ∈ (w.room i).happenings)
    (includeThreads : Bool) : Turn.barrier s.tracker.chronicle x.id includeThreads =
      if includeThreads then none else (w.scope i x.thread).thread := by
  obtain ⟨e, he, -, hs, -⟩ := h.knows.get?_id h.orderly hm
  rw [Turn.barrier, Chronicle.scope?, he, Option.map_some, Option.bind_some, hs]

theorem Watches.jump (h : s.Watches w) {x : Happening} (hm : x ∈ (w.room i).happenings)
    (htarget : x.targetable = true) {includeThreads : Bool}
    (hopen : (x.thread.isSome && !includeThreads) = false) :
    ∃ s', s.jump (roomName i) x.label includeThreads = .ok (s', .ok ()) ∧
      s'.Watches (({ w with gaze := some ⟨i, x.thread,
        (w.room i).head x.thread == some x.sequence⟩ } : World).change i
          (·.advance x.thread x.sequence)) ∧
      s'.tracker.ambient = s.tracker.ambient := by
  have hplace := h.orderly.hasPlace hm
  obtain ⟨e, he, ht, hs, hq⟩ := h.knows.get?_id h.orderly hm
  have hbarrier : Turn.barrier s.tracker.chronicle x.id includeThreads = none := by
    rw [h.barrier_eq hm]
    cases includeThreads with
    | true => rfl
    | false =>
      have hmain : x.thread = none := by simpa using hopen
      rw [hmain]
      rfl
  have hlive : ((w.room i).head x.thread == some x.sequence) =
      (s.tracker.chronicle.latest e.scope).any fun head => head.message.id == e.message.id := by
    rw [hs, ht.id]
    exact (h.isLatest_eq hm).symm
  have ha : (s.tracker.jump (roomId i) x.id includeThreads).Reads _ _ _ :=
    Tracker.reads_jump h.prompt he hbarrier hlive
  rw [hs, ht.id, hq] at ha
  have hwritten :
      (s.tracker.jump (roomId i) x.id includeThreads).tracker.book.WrittenThrough [] :=
    Tracker.writtenThrough_handle (c := .jump (roomId i) x.id includeThreads) h.written
      h.knows.sound rfl
  have hlooks := w.looks_at ⟨i, x.thread, (w.room i).head x.thread == some x.sequence⟩ hplace
  obtain ⟨actions, s₁, s', hreply, hexecute, hobserve, hwatches⟩ :=
    h.reads (f := (·.advance x.thread x.sequence)) ha hwritten (Room.readsMore_advance hm)
      (fun u => Iff.rfl) hlooks "jump_to"
  refine ⟨s', ?_, hwatches⟩
  have hj := h.roomOf (List.ne_nil_of_mem hm)
  simp only [Session.jump, hj, h.eventOf_label hm htarget, bind, Except.bind, after, hreply,
    hexecute, hobserve]
  rfl

theorem Watches.jump_refused (h : s.Watches w) {x : Happening}
    (hm : x ∈ (w.room i).happenings) (htarget : x.targetable = true) {place : Nat}
    (hplace : x.thread = some place) :
    ∃ s', s.jump (roomName i) x.label false =
        .ok (s', .error (.inThread x.id ((w.room i).rootId place))) ∧
      s'.Watches w ∧ s'.tracker.ambient = s.tracker.ambient := by
  have hbarrier : Turn.barrier s.tracker.chronicle x.id false =
      some ((w.room i).rootId place) := by
    rw [h.barrier_eq hm, hplace]
    rfl
  have hj := h.roomOf (List.ne_nil_of_mem hm)
  refine ⟨{ s with dated := s.dated || false }, ?_,
    ⟨⟨⟨h.orderly, h.records, h.kept, h.prompt, h.policy, h.reader, h.awaited, h.held, h.written,
      h.knows, h.covers⟩, h.complete, h.recoverable, h.chronological, h.rooms, h.checks,
      h.holding⟩, h.looks, h.own⟩, rfl⟩
  simp only [Session.jump, hj, h.eventOf_label hm htarget, bind, Except.bind, after,
    Tracker.jump, hbarrier, Turn.refused]
  rfl

end Session

end ReadTracking
