import ReadTracking.Proofs.Echoes

/-!
# What a moment queues

Reading on this device looks at the end of some scopes, or at one message of a scope.  Whatever it
looks at and finds unread it queues, scope by scope, and nothing else in the life of a tracker
queues anything.  What is due once a moment has queued its receipts is taken out of the queue, and
the receipts that a moment sends are exactly those that it takes out.
-/

set_option autoImplicit false

namespace ReadTracking

variable {σ : Type}

/-! ## Where a moment looks -/

def landing (c : Chronicle) (event : EventId) (includeThreads : Bool) : List Update :=
  match Turn.barrier c event includeThreads with
  | some _ => []
  | none => (c.get? event).toList.map fun e => ⟨e.scope, e.message.id, e.position.sequence⟩

namespace Tracker

def looks (t : Tracker σ) (c : Command) : List Update :=
  match c with
  | .markRoomRead room => (t.chronicle.scopes room).filterMap (Turn.horizon t.chronicle)
  | .viewRoom room => (Turn.horizon t.chronicle (.ofRoom room)).toList
  | .viewThread room root =>
    let known := t.chronicle.rootKnown room root
    if known || t.chronicle.hasThread room root then
      (Turn.horizon t.chronicle (.ofThread room root)).toList ++
        if known then
          (t.chronicle.position? root).toList.map fun p => ⟨.ofRoom room, root, p.sequence⟩
        else []
    else []
  | .jump _ event includeThreads => landing t.chronicle event includeThreads
  | .supply request _ =>
    match t.awaited with
    | none => []
    | some a =>
      if a.request = request then landing (t.loaded c).chronicle a.event a.includeThreads else []
  | .receive room _ limited => Turn.followed (t.loaded c) room (t.placed c) limited
  | .closeThread | .leave | .backfill _ _ _ | .receipt _ _ _ _ _ | .sendFailed _ _ _ | .forget _
  | .tick _ => []

variable [Backing σ]

/-- What a moment reads on this device: where it looks and finds unread messages.  Receipts that
come with the moment are applied before it looks. -/
def readNow (t : Tracker σ) : Moment → List Update
  | .command c =>
    (t.looks c).filter fun u => !(t.readingFrom (.command c)).covers u.scope u.sequence
  | .surroundings _ | .subscribe | .unsubscribe _ => []

def takenNow (t : Tracker σ) (m : Moment) : List (Slot × Queued) :=
  ((t.queued (t.readNow m)).pending.filter fun slot q =>
    (t.meet m).tracker.sends.waiting? slot != some q).entries

end Tracker

def Action.ofSend (p : Slot × Queued) : Action := .send p.1.scope p.2.event p.1.visibility

/-! ## Turns queue what they read -/

theorem Table.filter_congr {α β : Type} [KeyOrder α] {t : Table α β} {p p' : α → β → Bool}
    (h : ∀ k v, t.get? k = some v → p k v = p' k v) : t.filter p = t.filter p' := by
  refine ext_get? fun k => ?_
  rw [get?_filter, get?_filter]
  cases hk : t.get? k with
  | none => rfl
  | some v => rw [Option.filter_some, Option.filter_some, h k v hk]

def Apart (us : List Update) : Prop := us.Pairwise fun u u' => u.scope ≠ u'.scope

theorem MarkerBook.moved_setAll {us : List Update} (h : Apart us) (b : MarkerBook σ)
    (v : Visibility) (now : Nat) : (b.setAll v now us).2 = us.filter fun u => !b.isStale v u := by
  induction us generalizing b with
  | nil => rfl
  | cons u us ih =>
    obtain ⟨hu, h⟩ := List.pairwise_cons.1 h
    cases hstale : b.isStale v u with
    | true => simp [setAll, hstale, ih h]
    | false =>
      have hkept : ∀ w ∈ us, (b.setMark v now u).isStale v w = b.isStale v w := by
        intro w hw
        unfold isStale
        rw [mark?_setMark, if_neg fun he => hu w hw he.1.symm]
      have hrest : us.filter (fun w => !(b.setMark v now u).isStale v w) =
          us.filter fun w => !b.isStale v w :=
        List.filter_congr fun w hw => by rw [hkept w hw]
      simp [setAll, hstale, ih h, hrest]

theorem MarkerBook.setAll_of_apart (b : MarkerBook σ) (now : Nat) {us : List Update}
    (h : Apart us) (hnew : ∀ u ∈ us, ¬ b.covers u.scope u.sequence = true) :
    (b.setAll .personal now us).2 = us := by
  rw [moved_setAll h, List.filter_eq_self]
  intro u hu
  rw [isStale_eq_false_of_not_covers .personal (hnew u hu)]
  rfl

structure Turn.HasQueued (t : Tracker σ) (us : List Update) (r : Turn σ) : Prop where
  elapsed : r.tracker.ambient.elapsed = t.ambient.elapsed
  policy : r.tracker.policy = t.policy
  sends : r.tracker.sends = t.queued us
  covered : ∀ u ∈ us, r.tracker.book.covers u.scope u.sequence = true
  silent : r.Silent

namespace Turn

theorem chronicle_read [Backing σ] (r : Turn σ) (u : Update) :
    (r.read u).tracker.chronicle = r.tracker.chronicle := by
  by_cases hu : r.tracker.book.covers u.scope u.sequence = true
  · rw [read_of_covers r hu]
  · rw [read_of_not_covers r hu]

theorem chronicle_foldl_read [Backing σ] (us : List Update) (r : Turn σ) :
    (us.foldl read r).tracker.chronicle = r.tracker.chronicle := by
  induction us generalizing r with
  | nil => rfl
  | cons u us ih => exact (ih _).trans (r.chronicle_read u)

theorem covers_read_of_ne [Backing σ] (r : Turn σ) {u : Update} {s : Scope} (h : s ≠ u.scope)
    (q : Nat) : (r.read u).tracker.book.covers s q = r.tracker.book.covers s q := by
  by_cases hu : r.tracker.book.covers u.scope u.sequence = true
  · rw [read_of_covers r hu]
  · rw [read_of_not_covers r hu, Bool.eq_iff_iff, MarkerBook.covers_advance]
    simp only [h, false_and, or_false]

theorem readToEnd_eq [Backing σ] (r : Turn σ) (s : Scope) :
    r.readToEnd s = (horizon r.tracker.chronicle s).toList.foldl read r := by
  unfold readToEnd
  cases horizon r.tracker.chronicle s with
  | none => rfl
  | some u => rfl

theorem followLive_eq [Backing σ] (r : Turn σ) (room : RoomId) (placed : List Placed)
    (limited : Bool) :
    r.followLive room placed limited = (followed r.tracker room placed limited).foldl read r := by
  have hstep : ∀ (b : Bool) (r : Turn σ) (s : Scope), (if b then r.readToEnd s else r) =
      (if b then (horizon r.tracker.chronicle s).toList else []).foldl read r := by
    intro b r s
    cases b with
    | true => exact r.readToEnd_eq s
    | false => rfl
  unfold followLive followed
  cases r.tracker.focus with
  | none => rfl
  | some focus =>
    by_cases hlive : focus.room = room ∧ focus.live = true
    · simp only [if_pos hlive, hstep, List.foldl_append]
      cases focus.thread with
      | none => rfl
      | some root => simp only [chronicle_foldl_read]
    · simp only [if_neg hlive]
      rfl

namespace HasQueued

variable {t : Tracker σ} {us : List Update} {r r' : Turn σ}

theorem queued (h : r.HasQueued t us) (us' : List Update) :
    r.tracker.queued us' = t.queued (us ++ us') := by
  have hv : r.tracker.sendVisibility = t.sendVisibility := by
    simp only [Tracker.sendVisibility, h.policy]
  have hsends := h.sends
  simp only [Tracker.queued] at hsends ⊢
  rw [List.foldl_append, ← hsends, hv, h.elapsed]

theorem report (h : r.HasQueued t us) (room : RoomId) : (r.report room).HasQueued t us := by
  obtain ⟨reported, notices, he⟩ := r.report_eq room
  rw [he]
  exact ⟨h.elapsed, h.policy, h.sends, h.covered, h.silent⟩

variable [Backing σ]

theorem read (h : r.HasQueued t us) (u : Update) :
    (r.read u).HasQueued t
      (us ++ [u].filter fun u => !r.tracker.book.covers u.scope u.sequence) := by
  by_cases hu : r.tracker.book.covers u.scope u.sequence = true
  · rw [r.read_of_covers hu, List.filter_cons_of_neg (by simp [hu]), List.filter_nil,
      List.append_nil]
    exact h
  · rw [r.read_of_not_covers hu, List.filter_cons_of_pos (by simp [hu]), List.filter_nil]
    refine ⟨h.elapsed, h.policy, h.queued [u], ?_, h.silent.append _ _ _⟩
    intro u' hu'
    rw [MarkerBook.covers_advance]
    rcases List.mem_append.1 hu' with hu' | hu'
    · exact .inl (h.covered u' hu')
    · cases List.mem_singleton.1 hu'
      exact .inr ⟨rfl, Nat.le_refl _⟩

theorem readEach (h : r.HasQueued t us) {looks : List Update} (hl : Apart looks) :
    (looks.foldl Turn.read r).HasQueued t
      (us ++ looks.filter fun u => !r.tracker.book.covers u.scope u.sequence) := by
  induction looks generalizing r us with
  | nil =>
    rw [List.filter_nil, List.append_nil]
    exact h
  | cons u looks ih =>
    obtain ⟨hu, hl⟩ := List.pairwise_cons.1 hl
    have hrest := ih (h.read u) hl
    have hsame : ∀ w ∈ looks, (!(r.read u).tracker.book.covers w.scope w.sequence) =
        !r.tracker.book.covers w.scope w.sequence := by
      intro w hw
      rw [r.covers_read_of_ne (hu w hw).symm]
    rw [List.filter_congr hsame, List.append_assoc, ← List.filter_append] at hrest
    exact hrest

theorem readAll (h : r.HasQueued t us) {looks : List Update} (hl : Apart looks)
    (hnew : ∀ u ∈ looks, ¬ r.tracker.book.covers u.scope u.sequence = true) :
    (r.readAll looks).HasQueued t (us ++ looks) := by
  have hmoved := r.tracker.book.setAll_of_apart r.tracker.ambient.wallClock hl hnew
  rw [readAll_eq]
  refine ⟨h.elapsed, h.policy, ?_, ?_, h.silent.append _ _ _⟩
  · rw [MarkerBook.moved_advanceAll, hmoved]
    exact h.queued looks
  · intro u hu
    rw [MarkerBook.covers_advanceAll]
    rcases List.mem_append.1 hu with hu | hu
    · exact .inl (h.covered u hu)
    · exact .inr ⟨u, hu, rfl, Nat.le_refl _⟩

theorem land (h : r.HasQueued t []) (room : RoomId) {c : Chronicle} {event : EventId}
    {includeThreads : Bool} {e : Indexed} (hbar : barrier c event includeThreads = none)
    (hget : c.get? event = some e) : (r.land room e).HasQueued t
      ((landing c event includeThreads).filter fun u =>
        !r.tracker.book.covers u.scope u.sequence) := by
  have hl : landing c event includeThreads = [⟨e.scope, e.message.id, e.position.sequence⟩] := by
    simp only [landing, hbar, hget]
    rfl
  obtain ⟨focus, hland⟩ : ∃ focus, r.land room e =
      (r.update fun t => { t with focus }).read ⟨e.scope, e.message.id, e.position.sequence⟩ :=
    ⟨_, rfl⟩
  have hlook : (r.update fun t => { t with focus }).HasQueued t [] :=
    ⟨h.elapsed, h.policy, h.sends, h.covered, h.silent⟩
  rw [hl, hland]
  exact hlook.read _

omit [Backing σ] in
theorem aside (h : r.HasQueued t us) (ha : r.Aside r') (hs : r'.Silent) : r'.HasQueued t us where
  elapsed := (congrArg Ambient.elapsed ha.ambient).trans h.elapsed
  policy := ha.policy.trans h.policy
  sends := ha.sends.trans h.sends
  covered u hu := ha.covers _ _ (h.covered u hu)
  silent := hs

end HasQueued

end Turn

/-! ## Every scope comes once -/

theorem apart_toList (o : Option Update) : Apart o.toList := by
  cases o with
  | none => exact .nil
  | some u => exact List.pairwise_singleton _ _

theorem apart_append {us us' : List Update} (h : Apart us) (h' : Apart us')
    (hne : ∀ u ∈ us, ∀ u' ∈ us', u.scope ≠ u'.scope) : Apart (us ++ us') :=
  List.pairwise_append.2 ⟨h, h', hne⟩

theorem apart_landing (c : Chronicle) (event : EventId) (includeThreads : Bool) :
    Apart (landing c event includeThreads) := by
  unfold landing
  split
  · exact .nil
  · cases c.get? event with
    | none => exact .nil
    | some e => exact List.pairwise_singleton _ _

theorem apart_followed (t : Tracker σ) (room : RoomId) (placed : List Placed) (limited : Bool) :
    Apart (Turn.followed t room placed limited) := by
  have hends : ∀ (b : Bool) (s : Scope),
      Apart (if b then (Turn.horizon t.chronicle s).toList else []) ∧
        ∀ u ∈ if b then (Turn.horizon t.chronicle s).toList else [], u.scope = s := by
    intro b s
    cases b with
    | false => exact ⟨.nil, List.forall_mem_nil _⟩
    | true =>
      refine ⟨apart_toList _, ?_⟩
      intro u hu
      exact Turn.scope_of_horizon (Option.mem_toList.1 hu)
  unfold Turn.followed
  cases t.focus with
  | none => exact .nil
  | some focus =>
    dsimp only
    split
    · cases focus.thread with
      | none =>
        rw [List.append_nil]
        exact (hends _ _).1
      | some root =>
        refine apart_append (hends _ _).1 (hends _ _).1 ?_
        intro u hu u' hu' he
        rw [(hends _ _).2 u hu, (hends _ _).2 u' hu'] at he
        cases he
    · exact .nil

theorem Tracker.apart_looks (t : Tracker σ) (c : Command) : Apart (t.looks c) := by
  cases c with
  | markRoomRead room =>
    refine List.pairwise_filterMap.2 ((t.chronicle.nodup_scopes room).imp ?_)
    intro s s' hne u hu u' hu' he
    rw [Turn.scope_of_horizon hu, Turn.scope_of_horizon hu'] at he
    exact hne he
  | viewRoom room => exact apart_toList _
  | viewThread room root =>
    unfold looks
    dsimp only
    split
    · refine apart_append (apart_toList _) ?_ ?_
      · split
        · cases t.chronicle.position? root with
          | none => exact .nil
          | some p => exact List.pairwise_singleton _ _
        · exact .nil
      · intro u hu u' hu' he
        have hscope := Turn.scope_of_horizon (Option.mem_toList.1 hu)
        split at hu'
        · obtain ⟨p, -, rfl⟩ := List.mem_map.1 hu'
          rw [hscope] at he
          cases he
        · cases hu'
    · exact .nil
  | jump room event includeThreads => exact apart_landing _ _ _
  | supply request messages =>
    unfold looks
    dsimp only
    split
    · exact .nil
    · split
      · exact apart_landing _ _ _
      · exact .nil
  | receive room messages limited => exact apart_followed _ _ _ _
  | closeThread | leave | backfill | receipt | sendFailed | forget | tick => exact .nil

theorem Tracker.apart_readNow [Backing σ] (t : Tracker σ) (m : Moment) : Apart (t.readNow m) := by
  cases m with
  | command c => exact (t.apart_looks c).filter _
  | surroundings | subscribe | unsubscribe => exact .nil

/-! ## What a moment takes out -/

namespace SendQueue

variable (s : SendQueue) (now : Nat)

def due : List (Slot × Queued) := (s.pending.filter fun _ q => s.isDue now q).entries

theorem map_release : (s.release now).2.map
    (fun o => Action.send o.slot.scope o.event o.slot.visibility) =
      (s.due now).map Action.ofSend := by
  simp only [release, due, List.map_map]
  rfl

end SendQueue

namespace Tracker

variable [Backing σ] {t : Tracker σ} {m : Moment} {r : Turn σ} {now : Nat}

theorem takenNow_of_release
    (h : (t.meet m).tracker.sends = ((t.queued (t.readNow m)).release now).1) :
    t.takenNow m = (t.queued (t.readNow m)).due now := by
  unfold takenNow SendQueue.due
  refine congrArg Table.entries (Table.filter_congr ?_)
  intro slot q hq
  have hwaits : (t.queued (t.readNow m)).waiting? slot = some q := hq
  rw [h, SendQueue.waiting?_release, hwaits, Option.filter_some]
  cases (t.queued (t.readNow m)).isDue now q with
  | true => rfl
  | false => simp

theorem takenNow_of_kept (h : (t.meet m).tracker.sends = t.queued (t.readNow m)) :
    t.takenNow m = [] := by
  unfold takenNow
  rw [List.eq_nil_iff_forall_not_mem]
  rintro ⟨slot, q⟩ hmem
  rw [← Table.get?_eq_some_iff, Table.get?_filter, Option.filter_eq_some_iff] at hmem
  have hwaits : (t.queued (t.readNow m)).waiting? slot = some q := hmem.1
  rw [h, hwaits, bne_self_eq_false] at hmem
  cases hmem.2

structure Conveys (t : Tracker σ) (m : Moment) : Prop where
  policy : (t.meet m).tracker.policy = t.policy
  covered : ∀ u ∈ t.readNow m, (t.meet m).tracker.book.covers u.scope u.sequence = true
  delivery : t.Delivery m (t.queued (t.readNow m))
  sent : ¬ t.RefusesJump m →
    (t.meet m).actions.filter Action.isSend = (t.takenNow m).map Action.ofSend

theorem conveys_of_release {a : Answer σ} (ha : t.meet m = a) (now : Nat)
    (h : r.HasQueued t (t.readNow m)) (hm : ¬ t.RefusesJump m)
    (hpolicy : a.tracker.policy = r.tracker.policy)
    (hmarks : a.tracker.book.marks = r.tracker.book.marks)
    (hsends : a.tracker.sends = (r.releaseAt now).tracker.sends)
    (hactions : a.actions = (r.releaseAt now).actions) : t.Conveys m := by
  subst ha
  have hrelease : (t.meet m).tracker.sends = ((t.queued (t.readNow m)).release now).1 := by
    rw [hsends, ← h.sends]
    rfl
  have hsent : (t.meet m).actions =
      r.actions ++ ((t.queued (t.readNow m)).due now).map Action.ofSend := by
    rw [hactions, ← SendQueue.map_release, ← h.sends]
    rfl
  refine ⟨hpolicy.trans h.policy, ?_, .handed hm now hrelease ?_, fun _ => ?_⟩
  · intro u hu
    rw [MarkerBook.covers_congr hmarks]
    exact h.covered u hu
  · intro o ho
    rw [hsent, ← SendQueue.map_release]
    exact List.mem_append_right _ (List.mem_map_of_mem ho)
  · have hsilent : r.actions.filter Action.isSend = [] := by
      rw [List.filter_eq_nil_iff]
      intro a ha
      rw [h.silent a ha]
      decide
    rw [takenNow_of_release hrelease, hsent, List.filter_append, hsilent, List.nil_append,
      List.filter_eq_self]
    intro a ha
    obtain ⟨p, -, rfl⟩ := List.mem_map.1 ha
    rfl

theorem conveys_of_done (ha : t.meet m = (r.releaseAt now).done)
    (h : r.HasQueued t (t.readNow m)) (hm : ¬ t.RefusesJump m) : t.Conveys m :=
  conveys_of_release ha now h hm rfl rfl rfl rfl

theorem conveys_of_idle {a : Answer σ} (ha : t.meet m = a) (hn : t.readNow m = [])
    (hm : ¬ t.RefusesJump m) (hpolicy : a.tracker.policy = t.policy)
    (hsends : a.tracker.sends = t.sends) (hactions : a.actions = []) : t.Conveys m := by
  subst ha
  have hkept : (t.meet m).tracker.sends = t.queued (t.readNow m) := by
    rw [hn]
    exact hsends
  refine ⟨hpolicy, ?_, .kept hm hkept, fun _ => ?_⟩
  · rw [hn]
    exact List.forall_mem_nil _
  · rw [takenNow_of_kept hkept, hactions]
    rfl

theorem conveys_of_refused (why : Refusal) (ha : t.meet m = r.release.refused why)
    (hn : t.readNow m = []) (h : r.HasQueued t []) (hm : t.RefusesJump m) : t.Conveys m := by
  refine ⟨?_, ?_, ?_, fun hn => absurd hm hn⟩
  · rw [ha]
    exact h.policy
  · rw [hn]
    exact List.forall_mem_nil _
  · rw [hn]
    refine .dropped hm rfl ?_
    rw [ha]
    show (r.tracker.sends.release r.tracker.ambient.elapsed).1 = _
    rw [h.elapsed, h.sends]

omit [Backing σ] in
theorem hasQueued_start {t' : Tracker σ} (helapsed : t'.ambient.elapsed = t.ambient.elapsed)
    (hpolicy : t'.policy = t.policy) (hsends : t'.sends = t.sends) :
    ({ tracker := t' } : Turn σ).HasQueued t [] :=
  ⟨helapsed, hpolicy, hsends, List.forall_mem_nil _, List.forall_mem_nil _⟩

/-! ### Command by command -/

theorem readNow_of_looks_nil {c : Command} (h : t.looks c = []) : t.readNow (.command c) = [] := by
  rw [readNow, h, List.filter_nil]

theorem conveys_markRoomRead (room : RoomId) : t.Conveys (.command (.markRoomRead room)) := by
  have hstart : ({ tracker := t } : Turn σ).HasQueued t [] := hasQueued_start rfl rfl rfl
  have hnew : ∀ u ∈ t.unreadEnds room, ¬ t.book.covers u.scope u.sequence = true := by
    intro u hu
    simpa using (List.mem_filter.1 hu).2
  have hread := hstart.readAll (t.apart_readNow (.command (.markRoomRead room))) hnew
  exact conveys_of_done rfl (hread.report room) (not_refusesJump nofun)

theorem viewRoom_eq_foldl (t : Tracker σ) (room : RoomId) :
    t.viewRoom room = ((((t.looks (.viewRoom room)).foldl Turn.read
      { tracker := { t with awaited := none, focus := some ⟨room, none, true⟩ } }).report
        room).release).done := by
  rw [viewRoom, Turn.readToEnd_eq]
  rfl

theorem viewThread_eq_foldl {room : RoomId} {root : EventId}
    (hk : (t.chronicle.rootKnown room root || t.chronicle.hasThread room root) = true) :
    t.viewThread room root = ((((t.looks (.viewThread room root)).foldl Turn.read
      { tracker := { t with awaited := none, focus := some ⟨room, some root, true⟩ } }).report
        room).release).done := by
  simp only [viewThread, looks, hk, if_true, List.foldl_append, Turn.readToEnd_eq]
  cases t.chronicle.rootKnown room root with
  | false => rfl
  | true =>
    cases t.chronicle.position? root with
    | none => rfl
    | some p => rfl

theorem conveys_viewRoom (room : RoomId) : t.Conveys (.command (.viewRoom room)) := by
  let r : Turn σ := { tracker := { t with awaited := none, focus := some ⟨room, none, true⟩ } }
  have hstart : r.HasQueued t [] := hasQueued_start rfl rfl rfl
  have hread := hstart.readEach (t.apart_looks (.viewRoom room))
  have hmeet : t.meet (.command (.viewRoom room)) =
      ((((t.looks (.viewRoom room)).foldl Turn.read r).report room).release).done :=
    t.viewRoom_eq_foldl room
  exact conveys_of_done hmeet (hread.report room) (not_refusesJump nofun)

theorem conveys_viewThread (room : RoomId) (root : EventId) :
    t.Conveys (.command (.viewThread room root)) := by
  have hm := t.not_refusesJump (c := .viewThread room root) nofun
  let r : Turn σ :=
    { tracker := { t with awaited := none, focus := some ⟨room, some root, true⟩ } }
  have hstart : r.HasQueued t [] := hasQueued_start rfl rfl rfl
  have hread := hstart.readEach (t.apart_looks (.viewThread room root))
  by_cases hk : (t.chronicle.rootKnown room root || t.chronicle.hasThread room root) = true
  case neg =>
    have hmeet : t.meet (.command (.viewThread room root)) =
        ({ tracker := t } : Turn σ).refused (.unknownThread room root) := by
      simp only [meet, handle, viewThread, hk]
      rfl
    have hlooks : t.looks (.viewThread room root) = [] := by
      simp only [looks, hk]
      rfl
    exact conveys_of_idle hmeet (readNow_of_looks_nil hlooks) hm rfl rfl rfl
  have hmeet : t.meet (.command (.viewThread room root)) =
      ((((t.looks (.viewThread room root)).foldl Turn.read r).report room).release).done :=
    viewThread_eq_foldl hk
  exact conveys_of_done hmeet (hread.report room) hm

theorem conveys_jump (room : RoomId) (event : EventId) (includeThreads : Bool) :
    t.Conveys (.command (.jump room event includeThreads)) := by
  have hm := t.not_refusesJump (c := .jump room event includeThreads) nofun
  have hapart := t.apart_looks (.jump room event includeThreads)
  cases hbar : Turn.barrier t.chronicle event includeThreads with
  | some root =>
    have hmeet : t.meet (.command (.jump room event includeThreads)) =
        ({ tracker := t } : Turn σ).refused (.inThread event root) := by
      simp only [meet, handle, jump, hbar]
    have hlooks : t.looks (.jump room event includeThreads) = [] := by
      simp only [looks, landing, hbar]
    exact conveys_of_idle hmeet (readNow_of_looks_nil hlooks) hm rfl rfl rfl
  | none =>
    cases hget : t.chronicle.get? event with
    | none =>
      have hlooks : t.looks (.jump room event includeThreads) = [] := by
        simp only [looks, landing, hbar, hget]
        rfl
      let r : Turn σ :=
        { tracker := { t with
            ambient := t.ambient.number.1
            awaited := some ⟨t.ambient.number.2, room, event, includeThreads⟩
            focus := some ⟨room, none, false⟩ } }
      have hmeet : t.meet (.command (.jump room event includeThreads)) =
          ((r.ask (.fetch t.ambient.number.2 room event)).release).done := by
        simp only [meet, handle, jump, hbar, hget]
        rfl
      have hstart : (r.ask (.fetch t.ambient.number.2 room event)).HasQueued t [] := by
        refine ⟨rfl, rfl, rfl, List.forall_mem_nil _, ?_⟩
        exact List.forall_mem_singleton.2 rfl
      rw [← readNow_of_looks_nil hlooks] at hstart
      exact conveys_of_done hmeet hstart hm
    | some e =>
      let r : Turn σ := { tracker := { t with awaited := none } }
      have hmeet : t.meet (.command (.jump room event includeThreads)) =
          (((r.land room e).report room).release).done := by
        simp only [meet, handle, jump, hbar, hget]
        rfl
      have hstart : r.HasQueued t [] := hasQueued_start rfl rfl rfl
      exact conveys_of_done hmeet ((hstart.land room hbar hget).report room) hm

theorem conveys_supply_aside {request : Nat} (messages : List Message)
    (haside : ∀ a, t.awaited = some a → a.request ≠ request) :
    t.Conveys (.command (.supply request messages)) := by
  have hmeet : t.meet (.command (.supply request messages)) =
      ({ tracker := t } : Turn σ).done := by
    show t.supply request messages = _
    unfold supply
    cases ha : t.awaited with
    | none => rfl
    | some a => simp [haside a ha]
  have hlooks : t.looks (.supply request messages) = [] := by
    simp only [looks]
    cases ha : t.awaited with
    | none => rfl
    | some a => simp [haside a ha]
  have hm : ¬ t.RefusesJump (.command (.supply request messages)) := by
    rintro ⟨_, _, why, -, hr⟩
    rw [hmeet] at hr
    cases hr
  exact conveys_of_idle hmeet (readNow_of_looks_nil hlooks) hm rfl rfl rfl

/-- The answer that a jump waits for. -/
theorem conveys_supply_awaited {request : Nat} (messages : List Message) {a : Awaited}
    (ha : t.awaited = some a) (hr : a.request = request) :
    t.Conveys (.command (.supply request messages)) := by
  let c : Command := .supply request messages
  let chronicle := (t.chronicle.ingest a.room messages false).1
  let r₀ : Turn σ := { tracker := { t with chronicle, awaited := none } }
  let r := r₀.afterPlacing (t.chronicle.ingest a.room messages false).2
  have haside : r₀.Aside r := r₀.aside_afterPlacing _
  have hbegin : r₀.HasQueued t [] := hasQueued_start rfl rfl rfl
  have hstart : r.HasQueued t [] := hbegin.aside haside (hbegin.silent.afterPlacing _)
  have hlooks : t.looks c = landing chronicle a.event a.includeThreads := by
    simp only [looks, loaded, batch?, c, ha, hr, if_true, Option.filter_some, decide_true,
      Option.map_some]
    rfl
  have hbook : t.readingFrom (.command c) = r.tracker.book := by
    simp only [c, readingFrom, ha, hr, if_true]
    rfl
  have hnow : t.readNow (.command c) = (landing chronicle a.event a.includeThreads).filter
      fun u => !r.tracker.book.covers u.scope u.sequence := by
    rw [readNow, hlooks, hbook]
  cases hbar : Turn.barrier chronicle a.event a.includeThreads with
  | some root =>
    have hmeet : t.meet (.command c) =
        ((r.report a.room).release).refused (.inThread a.event root) := by
      simp only [c, meet, handle, supply, ha, hr, if_true]
      rw [show Turn.barrier _ a.event a.includeThreads = some root from hbar]
    have hnil : t.readNow (.command c) = [] := by
      simp only [hnow, landing, hbar, List.filter_nil]
    exact conveys_of_refused _ hmeet hnil (hstart.report a.room)
      ⟨request, messages, .inThread a.event root, rfl, by rw [hmeet]; rfl⟩
  | none =>
    have hm : ∀ r₁ : Turn σ, t.meet (.command c) = r₁.release.done →
        ¬ t.RefusesJump (.command c) := by
      rintro r₁ h₁ ⟨_, _, why, -, hreply⟩
      rw [h₁] at hreply
      cases hreply
    cases hget : chronicle.get? a.event with
    | none =>
      have hmeet : t.meet (.command c) = ((r.report a.room).release).done := by
        simp only [c, meet, handle, supply, ha, hr, if_true]
        rw [show Turn.barrier _ a.event a.includeThreads = none from hbar,
          show Chronicle.get? _ a.event = none from hget]
      have hnil : t.readNow (.command c) = [] := by
        simp only [hnow, landing, hbar, hget, Option.toList_none, List.map_nil, List.filter_nil]
      rw [← hnil] at hstart
      exact conveys_of_done hmeet (hstart.report a.room) (hm _ hmeet)
    | some e =>
      have hmeet : t.meet (.command c) = (((r.land a.room e).report a.room).release).done := by
        simp only [c, meet, handle, supply, ha, hr, if_true]
        rw [show Turn.barrier _ a.event a.includeThreads = none from hbar,
          show Chronicle.get? _ a.event = some e from hget]
      have hland := hstart.land a.room hbar hget
      rw [← hnow] at hland
      exact conveys_of_done hmeet (hland.report a.room) (hm _ hmeet)

theorem conveys_supply (request : Nat) (messages : List Message) :
    t.Conveys (.command (.supply request messages)) := by
  by_cases hw : ∃ a, t.awaited = some a ∧ a.request = request
  · obtain ⟨a, ha, hr⟩ := hw
    exact conveys_supply_awaited messages ha hr
  · exact conveys_supply_aside messages fun a ha hr => hw ⟨a, ha, hr⟩

theorem conveys_receive (room : RoomId) (messages : List Message) (limited : Bool) :
    t.Conveys (.command (.receive room messages limited)) := by
  let c : Command := .receive room messages limited
  let r₀ : Turn σ :=
    { tracker := { t with chronicle := (t.chronicle.ingest room messages limited).1 } }
  let r := r₀.afterPlacing (t.chronicle.ingest room messages limited).2
  have haside : r₀.Aside r := r₀.aside_afterPlacing _
  have hbegin : r₀.HasQueued t [] := hasQueued_start rfl rfl rfl
  have hstart : r.HasQueued t [] := hbegin.aside haside (hbegin.silent.afterPlacing _)
  have hlooks : t.looks c =
      Turn.followed r.tracker room (t.chronicle.ingest room messages limited).2 limited := by
    simp only [Turn.followed, haside.focus, haside.chronicle]
    rfl
  have hread := hstart.readEach (t.apart_looks c)
  have hmeet : t.meet (.command c) =
      ((((t.looks c).foldl Turn.read r).report room).release).done := by
    rw [hlooks, ← Turn.followLive_eq]
    rfl
  exact conveys_of_done hmeet (hread.report room) (not_refusesJump fun _ _ he => by cases he)

theorem conveys_receipt (room : RoomId) (user : UserId) (event : EventId) (v : Visibility)
    (reach : Reach) : t.Conveys (.command (.receipt room user event v reach)) := by
  have hm := t.not_refusesJump (c := .receipt room user event v reach) nofun
  have hbegin : ({ tracker := t } : Turn σ).HasQueued t [] := hasQueued_start rfl rfl rfl
  by_cases hu : user = t.reader
  case neg =>
    have hmeet : t.meet (.command (.receipt room user event v reach)) =
        ({ tracker := t } : Turn σ).done := by
      simp only [meet, handle, receipt, hu, if_false]
    exact conveys_of_idle hmeet rfl hm rfl rfl rfl
  cases hget : t.chronicle.get? event with
  | some e =>
    have hread := hbegin.aside
      (Turn.aside_applyReceipt _ ⟨e.scope, event, e.position.sequence⟩ v reach)
      (hbegin.silent.applyReceipt _ _ _)
    have hmeet : t.meet (.command (.receipt room user event v reach)) =
        (((({ tracker := t } : Turn σ).applyReceipt ⟨e.scope, event, e.position.sequence⟩ v
          reach).report e.scope.room).release).done := by
      simp only [meet, handle, receipt, hu, if_true, hget]
    exact conveys_of_done hmeet (hread.report e.scope.room) hm
  | none =>
    have hheld := hbegin.aside (Turn.aside_hold _ room event v reach) hbegin.silent
    have hmeet : t.meet (.command (.receipt room user event v reach)) =
        ((({ tracker := t } : Turn σ).hold room event v reach).release).done := by
      simp only [meet, handle, receipt, hu, if_true, hget]
    exact conveys_of_done hmeet hheld hm

theorem conveys_backfill (room : RoomId) (messages : List Message) (filled : Option Nat) :
    t.Conveys (.command (.backfill room messages filled)) := by
  obtain ⟨chronicle, hmeet⟩ : ∃ chronicle, t.backfill room messages filled =
      ((((({ tracker := { t with chronicle } } : Turn σ).afterPlacing
        (t.chronicle.ingest room messages false).2).report room).release).done) :=
    ⟨_, rfl⟩
  have hbegin : ({ tracker := { t with chronicle } } : Turn σ).HasQueued t [] :=
    hasQueued_start rfl rfl rfl
  have hstart := hbegin.aside
    (Turn.aside_afterPlacing _ (t.chronicle.ingest room messages false).2)
    (hbegin.silent.afterPlacing _)
  exact conveys_of_done hmeet (hstart.report room) (not_refusesJump nofun)

theorem conveys_tick (now : Nat) : t.Conveys (.command (.tick now)) := by
  have hstart : ({ tracker := t } : Turn σ).HasQueued t [] := hasQueued_start rfl rfl rfl
  have hmeet : t.meet (.command (.tick now)) = t.tick now := rfl
  rw [tick_eq] at hmeet
  exact conveys_of_release hmeet now hstart (not_refusesJump nofun) rfl t.book.marks_retried rfl rfl

/-- Every moment but the forgetting of a room queues what it reads, and then sends what it takes
out. -/
theorem conveys (t : Tracker σ) (m : Moment) (hm : ∀ room, m ≠ .command (.forget room)) :
    t.Conveys m := by
  cases m with
  | surroundings ambient =>
    exact conveys_of_idle rfl rfl (by rintro ⟨_, _, _, he, -⟩; cases he) rfl rfl rfl
  | subscribe =>
    exact conveys_of_idle rfl rfl (by rintro ⟨_, _, _, he, -⟩; cases he) rfl rfl rfl
  | unsubscribe listener =>
    exact conveys_of_idle rfl rfl (by rintro ⟨_, _, _, he, -⟩; cases he) rfl rfl rfl
  | command c =>
    cases c with
    | markRoomRead room => exact conveys_markRoomRead room
    | viewRoom room => exact conveys_viewRoom room
    | viewThread room root => exact conveys_viewThread room root
    | closeThread =>
      exact conveys_of_done rfl (hasQueued_start rfl rfl rfl) (not_refusesJump nofun)
    | leave => exact conveys_of_done rfl (hasQueued_start rfl rfl rfl) (not_refusesJump nofun)
    | jump room event includeThreads => exact conveys_jump room event includeThreads
    | supply request messages => exact conveys_supply request messages
    | receive room messages limited => exact conveys_receive room messages limited
    | backfill room messages filled => exact conveys_backfill room messages filled
    | receipt room user event v reach => exact conveys_receipt room user event v reach
    | sendFailed scope event reason =>
      exact conveys_of_idle rfl rfl (not_refusesJump nofun) rfl rfl rfl
    | forget room => exact absurd rfl (hm room)
    | tick now => exact conveys_tick now

theorem covers_readingFrom {s : Scope} {q : Nat} (h : t.book.covers s q = true) :
    (t.readingFrom m).covers s q = true := by
  cases m with
  | surroundings | subscribe | unsubscribe => exact h
  | command c =>
    cases c with
    | supply request messages =>
      simp only [readingFrom]
      cases t.awaited with
      | none => exact h
      | some a =>
        dsimp only
        split
        · exact (Turn.aside_afterPlacing _ _).covers s q h
        · exact h
    | receive room messages limited => exact (Turn.aside_afterPlacing _ _).covers s q h
    | backfill room messages filled =>
      have hforward : Onward t.book.marks
          (t.meet (.command (.backfill room messages filled))).tracker.book.marks :=
        onward_meet fun _ he => by cases he
      exact hforward.covers h
    | receipt room user event v reach =>
      have hforward : Onward t.book.marks
          (t.meet (.command (.receipt room user event v reach))).tracker.book.marks :=
        onward_meet fun _ he => by cases he
      exact hforward.covers h
    | markRoomRead | viewRoom | viewThread | closeThread | leave | jump | sendFailed | forget
    | tick => exact h

end Tracker

end ReadTracking
