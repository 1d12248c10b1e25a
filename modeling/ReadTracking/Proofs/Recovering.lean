import ReadTracking.Proofs.Agreement

/-!
# Failures of the storage stay unseen across restarts

A session over a storage that fails plays the same moves as one over memory.  A restart that
cannot list the storage is tried again.  The markers that were never stored are lost by it, but
the receipts that the server kept and the messages of the user read their scopes again.  So both
sessions are where the plain account is, answer every move alike, and show the same of every room.
-/

set_option autoImplicit false

namespace ReadTracking

open Backing Reference Reference.World

/-! ## The moves of an account -/

namespace Reference

def Resolved.moves : Resolved → List Move
  | .skipped => []
  | .accepted m => [m]
  | .rejected m => [m]

def World.moves : World → List Gesture → List Move
  | _, [] => []
  | w, g :: gs => (w.apply g).2.moves ++ moves (w.apply g).1 gs

variable {w : World} {m : Move}

theorem withTarget_eq_rejected {i : Fin roomCount} {n : UInt8} {fits : Happening → Bool}
    {f : Happening → Nat → World × Resolved} (h : (w.withTarget i n fits f).2 = .rejected m) :
    ∃ x ∈ (w.room i).happenings, fits x = true ∧ ∃ place, (f x place).2 = .rejected m := by
  unfold World.withTarget at h
  cases hp : (w.room i).pick n fits with
  | none =>
    rw [show w.rooms[i].pick n fits = none from hp] at h
    cases h
  | some found =>
    rw [show w.rooms[i].pick n fits = some found from hp] at h
    obtain ⟨hx, hfits⟩ := Room.pick_eq_some hp
    exact ⟨found.1, List.mem_of_getElem? hx, hfits, found.2, h⟩

/-- Only a jump to a message in a thread is ever rejected. -/
theorem rejected_cases {g : Gesture} (h : (w.apply g).2 = .rejected m) :
    ∃ i, ∃ x ∈ (w.room i).happenings, x.targetable = true ∧ ∃ place, x.thread = some place ∧
      m = .jump (roomName i) x.label false := by
  cases g with
  | jump n target includeThreads =>
    obtain ⟨x, hm, htarget, _, h⟩ := withTarget_eq_rejected h
    cases includeThreads with
    | true => simp at h
    | false =>
      cases hplace : x.thread with
      | none => simp [hplace] at h
      | some place =>
        simp only [hplace, Option.isSome_some, Bool.not_false, Bool.and_true, if_true,
          Resolved.rejected.injEq] at h
        exact ⟨_, x, hm, htarget, place, hplace, h.symm⟩
  | openThread n =>
    simp only [World.apply] at h
    split at h
    · cases h
    · split at h <;> cases h
  | botThreadReply _ _ | botReaction _ _ | botEdit _ _ | readElsewhere _ _ | memberReads _ _ =>
    obtain ⟨x, -, -, _, h⟩ := withTarget_eq_rejected h
    cases h
  | _ => cases h

end Reference

/-! ## Two sessions -/

namespace Session

section Two

variable {σ τ : Type} [Backing σ] [Backing τ]

def states (s : Session σ) : Except Halt (List RoomState) :=
  (List.finRange roomCount).mapM fun i => (s.roomOf (roomName i)).map s.tracker.roomState

def Alike (s : Session σ) (u : Session τ) : Prop :=
  ∃ states, s.states = .ok states ∧ u.states = .ok states

abbrev Outcome (σ : Type) : Type := Except Halt (Session σ × Except Refusal Unit)

inductive Retried (play : Session σ → Move → Outcome σ) : Session σ → Move → Outcome σ → Prop
  | last {s m} : (∀ s' why, m = .restart → play s m ≠ .ok (s', .error (.storage why))) →
      Retried play s m (play s m)
  | again {s s' why o} : play s .restart = .ok (s', .error (.storage why)) →
      Retried play s' .restart o → Retried play s .restart o

/-- Two sessions play moves side by side.  Before every move and at the end both show the same of
every room, and neither is halted.  Where the first has an answer to a move, the second has the
same, though it may have to try a restart again. -/
def Together (play : Session σ → Move → Outcome σ) (play' : Session τ → Move → Outcome τ) :
    Session σ → Session τ → List Move → Prop
  | s, u, [] => s.Alike u
  | s, u, m :: ms => s.Alike u ∧ ∃ s' answer, play s m = .ok (s', answer) ∧
      ∀ o, Retried play' u m o → ∃ u', o = .ok (u', answer) ∧ Together play play' s' u' ms

inductive Opened (ambient : Ambient) : σ → Session σ → Prop
  | first {storage s storage'} :
      Session.openOver ambient {} storage = (.ok s, storage') → Opened ambient storage s
  | again {storage why storage' s} :
      Session.openOver ambient {} storage = (.error why, storage') →
      Opened ambient storage' s → Opened ambient storage s

/-! ## What both show -/

variable [Steady σ] [Steady τ] {w : World} {s : Session σ} {u : Session τ} {i : Fin roomCount}

omit [Backing τ] [Steady τ] in
theorem Follows.countScope_eq (h : s.Follows w) {thread : Option Nat}
    (hp : (w.room i).HasPlace thread) :
    countScope s.tracker.chronicle s.tracker.book (w.scope i thread) =
      ⟨(w.room i).count thread, 0, false⟩ :=
  h.knows.countScope_eq h.orderly (fun _ => id) hp fun _ => ⟨h.reads_of_covers hp, h.complete⟩

/-- All that is shown of a room is determined by the account. -/
theorem Follows.roomState_eq (h : s.Follows w) (h' : u.Follows w) (i : Fin roomCount) :
    s.tracker.roomState (roomId i) = u.tracker.roomState (roomId i) := by
  have hmain : countScope s.tracker.chronicle s.tracker.book (.ofRoom (roomId i)) =
      countScope u.tracker.chronicle u.tracker.book (.ofRoom (roomId i)) :=
    (h.countScope_eq (HasPlace.none _)).trans (h'.countScope_eq (HasPlace.none _)).symm
  have hthreads : (s.tracker.roomState (roomId i)).threads =
      (u.tracker.roomState (roomId i)).threads := by
    rw [Tracker.roomState, Tracker.roomState, h.knows.threads_roomState h.orderly fun _ => id,
      h'.knows.threads_roomState h'.orderly fun _ => id]
    refine List.map_congr_left fun place hplace => ?_
    obtain ⟨root, hr⟩ := Chronicle.Knows.root_of_mem_roots h.orderly hplace
    have hp := hasPlace_of_getElem? hr
    rw [h.countScope_eq hp, h'.countScope_eq hp]
  simp only [Tracker.roomState, roomState] at hthreads ⊢
  rw [hmain, hthreads]

omit [Backing τ] [Steady τ] in
theorem Accompanies.states_eq (h : s.Accompanies w) : s.states =
    .ok ((List.finRange roomCount).map fun i => s.tracker.roomState (roomId i)) :=
  mapM_eq_ok fun i _ => by rw [h.roomOf (h.joined i)]; rfl

theorem Accompanies.alike (h : s.Accompanies w) (h' : u.Accompanies w) : s.Alike u := by
  refine ⟨_, h.states_eq, ?_⟩
  rw [h'.states_eq]
  refine congrArg Except.ok (List.map_congr_left fun i _ => ?_)
  exact h'.roomState_eq h.toFollows i

end Two

/-! ## Restarts that fail -/

section One

variable {τ : Type} [Backing τ] [Steady τ] {w : World} {u : Session τ} {i : Fin roomCount}

theorem Accompanies.listed (h : u.Accompanies w) :
    ({ u with tracker := { u.tracker with book := u.tracker.book.listed } } :
      Session τ).Accompanies w :=
  ⟨⟨⟨⟨h.orderly, h.records, h.kept, ⟨h.prompt.shared, h.prompt.debounce, h.prompt.waiting⟩,
    h.policy, h.reader, h.awaited, h.held, h.written.listed, h.knows, h.covers⟩, h.complete,
    h.recoverable, h.chronological, h.rooms, h.checks, h.holding⟩, h.looks, h.own⟩, h.joined⟩

theorem Accompanies.restart_cases (h : u.Accompanies w) :
    (∃ u', u.restart = .ok (u', .ok ()) ∧ u'.Accompanies { w with gaze := none } ∧
      u'.tracker.ambient = u.tracker.ambient) ∨
    ∃ u' why, u.restart = .ok (u', .error (.storage why)) ∧ u'.Accompanies w ∧
      u'.tracker.ambient = u.tracker.ambient := by
  rcases hl : list u.tracker.book.storage with ⟨answer, storage⟩
  cases answer with
  | ok es =>
    obtain ⟨u', hrestart, hwatches, hambient⟩ := h.toWatches.restart hl
    exact .inl ⟨u', hrestart, ⟨hwatches, h.joined⟩, hambient⟩
  | error why =>
    refine .inr ⟨_, why, ?_, h.listed, rfl⟩
    simp only [restart, Tracker.openOver, MarkerBook.openOver, MarkerBook.listed, hl]

theorem Accompanies.retried (h : u.Accompanies w) {p : Session τ → Move → Outcome τ}
    (hplay : ∀ u' : Session τ, u'.tracker.ambient = u.tracker.ambient →
      p u' .restart = u'.restart)
    {o : Outcome τ} (ho : Retried p u .restart o) :
    ∃ u', o = .ok (u', .ok ()) ∧ u'.Accompanies { w with gaze := none } ∧
      u'.tracker.ambient = u.tracker.ambient := by
  -- Every try but the last leaves the session where it was, so the next one begins as this one did.
  generalize hm : Move.restart = m at ho
  induction ho with
  | @last u m hlast =>
    subst hm
    rcases h.restart_cases with ⟨u', hrestart, hu'⟩ | ⟨u', why, hrestart, -⟩
    · exact ⟨u', (hplay u rfl).trans hrestart, hu'⟩
    · exact absurd ((hplay u rfl).trans hrestart) (hlast u' why rfl)
  | @again u u' why o hfails _ ih =>
    rw [hplay u rfl] at hfails
    rcases h.restart_cases with ⟨u'', hrestart, -⟩ | ⟨u'', why', hrestart, hu'', hambient⟩
    · rw [hrestart] at hfails
      cases hfails
    · rw [hrestart] at hfails
      cases hfails
      obtain ⟨v, ho, hv, hv'⟩ := ih hu'' (fun v hv => hplay v (hv.trans hambient)) hm
      exact ⟨v, ho, hv, hv'.trans hambient⟩

omit [Backing τ] [Steady τ] in
theorem Retried.eq_of_play {p : Session τ → Move → Outcome τ} {m : Move} {o : Outcome τ}
    (ho : Retried p u m o) {u' : Session τ} {answer : Except Refusal Unit}
    (hplay : p u m = .ok (u', answer)) (hanswer : ∀ why, answer ≠ .error (.storage why)) :
    o = .ok (u', answer) := by
  cases ho with
  | last => exact hplay
  | again hfails =>
    rw [hplay] at hfails
    cases hfails
    exact absurd rfl (hanswer _)

theorem Accompanies.refuses (h : u.Accompanies w) {x : Happening} {place : Nat}
    (hm : x ∈ (w.room i).happenings) (htarget : x.targetable = true)
    (hplace : x.thread = some place) {u' : Session τ} {why : Refusal}
    (hplay : u.play (.jump (roomName i) x.label false) = .ok (u', .error why)) :
    why = .inThread x.id ((w.room i).rootId place) := by
  obtain ⟨_, hrefused, -⟩ := h.toWatches.jump_refused hm htarget hplace
  have he := hplay.symm.trans hrefused
  cases he
  rfl

theorem Opened.eq_beginning {ambient : Ambient} {storage : τ} (ho : Opened ambient storage u)
    (hsound : Viewed.sound storage) (hempty : Viewed.contents storage = .empty) :
    ∃ storage', u = beginning ambient storage' ∧ Viewed.sound storage' ∧
      Viewed.contents storage' = .empty := by
  induction ho with
  | @first storage s storage' hopen =>
    rcases hl : list storage with ⟨answer, storage₁⟩
    simp only [Session.openOver, Tracker.openOver, MarkerBook.openOver, hl] at hopen
    cases answer with
    | error why => cases hopen
    | ok es =>
      obtain ⟨hsound', hcontents, hes⟩ := Viewed.list_ok hsound hl
      cases hopen
      exact ⟨_, by rw [hes, hempty]; rfl, hsound', hcontents.trans hempty⟩
  | @again storage why storage' s hopen _ ih =>
    obtain ⟨hsound', hcontents⟩ := Steady.listed hsound
    rcases hl : list storage with ⟨answer, storage₁⟩
    simp only [Session.openOver, Tracker.openOver, MarkerBook.openOver, hl] at hopen
    rw [hl] at hsound' hcontents
    cases answer with
    | ok es => cases hopen
    | error why =>
      cases hopen
      exact ih hsound' (hcontents.trans hempty)

end One

/-! ## Side by side -/

section Two

variable {σ τ : Type} [Backing σ] [Steady σ] [Backing τ] [Steady τ] {w : World} {s : Session σ}
  {u : Session τ} {p : Session σ → Move → Outcome σ} {p' : Session τ → Move → Outcome τ}

/-- What one gesture comes to in two sessions.  The first can list its storage. -/
theorem Accompanies.move_alike (hs : s.Accompanies w) (hu : u.Accompanies w)
    (hl : ∃ es storage, list s.tracker.book.storage = (.ok es, storage))
    (hp : ∀ m, p s m = s.play m)
    (hp' : ∀ u' : Session τ, u'.tracker.ambient = u.tracker.ambient → ∀ m, p' u' m = u'.play m)
    {g : Gesture} {m : Move} (hm : (w.apply g).2.moves = [m]) :
    ∃ s' answer, p s m = .ok (s', answer) ∧ s'.Accompanies (w.apply g).1 ∧
      s'.tracker.ambient = s.tracker.ambient.wait g.nanos ∧
      ∀ o, Retried p' u m o → ∃ u', o = .ok (u', answer) ∧ u'.Accompanies (w.apply g).1 ∧
        u'.tracker.ambient = u.tracker.ambient.wait g.nanos := by
  obtain ⟨s', hanswers, hs', hambient⟩ := hs.step g fun _ => hl
  by_cases hg : g = .restart
  · subst hg
    cases hm
    exact ⟨s', .ok (), (hp _).trans hanswers, hs', hambient,
      fun o ho => hu.retried (fun u' hu' => hp' u' hu' _) ho⟩
  · -- Only a restart depends on the storage of the second session.
    obtain ⟨u', hanswers', hu', hambient'⟩ := hu.step g fun e => absurd e hg
    have hone : ∀ {answer}, u.play m = .ok (u', answer) →
        (∀ why, answer ≠ .error (.storage why)) → ∀ o, Retried p' u m o →
        ∃ u', o = .ok (u', answer) ∧ u'.Accompanies (w.apply g).1 ∧
          u'.tracker.ambient = u.tracker.ambient.wait g.nanos :=
      fun hplay hanswer o ho =>
        ⟨u', ho.eq_of_play ((hp' u rfl m).trans hplay) hanswer, hu', hambient'⟩
    cases hr : (w.apply g).2 with
    | skipped =>
      rw [hr] at hm
      cases hm
    | accepted m =>
      rw [hr] at hm hanswers hanswers'
      cases hm
      exact ⟨s', .ok (), (hp _).trans hanswers, hs', hambient,
        hone hanswers' fun why he => (by cases he)⟩
    | rejected m =>
      obtain ⟨i, x, hx, htarget, place, hplace, hjump⟩ := rejected_cases hr
      rw [hr] at hm hanswers hanswers'
      cases hm
      subst hjump
      obtain ⟨why, hrefused⟩ := hanswers
      obtain ⟨why', hrefused'⟩ := hanswers'
      obtain rfl := hs.refuses hx htarget hplace hrefused
      obtain rfl := hu.refuses hx htarget hplace hrefused'
      exact ⟨s', _, (hp _).trans hrefused, hs', hambient,
        hone hrefused' fun why he => (by cases he)⟩

/-- Sessions that accompany one account go through its moves together.  The first of them can
always list its storage. -/
theorem Accompanies.together (hs : s.Accompanies w) (hu : u.Accompanies w)
    (hl : ∀ storage : σ, ∃ es storage', list storage = (.ok es, storage')) {limit : Nat}
    (hp : ∀ (s : Session σ) (m : Move) (millis : Nat),
      s.tracker.ambient.elapsed = millis * Ambient.nanosPerMilli → millis ≤ limit →
      p s m = s.play m)
    (hp' : ∀ (u : Session τ) (m : Move) (millis : Nat),
      u.tracker.ambient.elapsed = millis * Ambient.nanosPerMilli → millis ≤ limit →
      p' u m = u.play m)
    {gs : List Gesture} (millis : Nat)
    (hnow : s.tracker.ambient.elapsed = millis * Ambient.nanosPerMilli)
    (hnow' : u.tracker.ambient.elapsed = millis * Ambient.nanosPerMilli)
    (hlimit : millis + Gesture.allMillis gs ≤ limit) :
    Together p p' s u (w.moves gs) := by
  -- The clocks of both sessions go with the gestures: restarts take no time, however often tried.
  induction gs generalizing w s u millis with
  | nil => exact hs.alike hu
  | cons g gs ih =>
    rw [Gesture.allMillis, List.foldr_cons, ← Nat.add_assoc] at hlimit
    have hreached : millis ≤ limit := by omega
    have hrest : ∀ {s' : Session σ} {u' : Session τ}, s'.Accompanies (w.apply g).1 →
        s'.tracker.ambient = s.tracker.ambient.wait g.nanos → u'.Accompanies (w.apply g).1 →
        u'.tracker.ambient = u.tracker.ambient.wait g.nanos →
        Together p p' s' u' ((w.apply g).1.moves gs) := fun hs' ha hu' ha' =>
      ih hs' hu' (millis + g.millis) (g.elapsed_wait ha hnow) (g.elapsed_wait ha' hnow') hlimit
    have hmove : ∀ m, (w.apply g).2.moves = [m] → Together p p' s u (w.moves (g :: gs)) := by
      intro m hm
      obtain ⟨s', answer, hplay, hs', ha, hretried⟩ := hs.move_alike hu (hl _)
        (fun m => hp s m millis hnow hreached)
        (fun u' hu' m => hp' u' m millis ((congrArg Ambient.elapsed hu').trans hnow') hreached) hm
      rw [World.moves, hm]
      refine ⟨hs.alike hu, s', answer, hplay, fun o ho => ?_⟩
      obtain ⟨u', ho, hu', ha'⟩ := hretried o ho
      exact ⟨u', ho, hrest hs' ha hu' ha'⟩
    cases hr : (w.apply g).2 with
    | skipped =>
      obtain ⟨s', hanswers, hs', ha⟩ := hs.step g fun _ => hl _
      obtain ⟨u', hanswers', hu', ha'⟩ := hu.step g fun hg => (by cases hg; cases hr)
      rw [hr] at hanswers hanswers'
      obtain rfl : s' = s := hanswers
      obtain rfl : u' = u := hanswers'
      rw [World.moves, hr]
      exact hrest hs' ha hu' ha'
    | accepted m => exact hmove m (congrArg Resolved.moves hr)
    | rejected m => exact hmove m (congrArg Resolved.moves hr)

/-- A session over memory joins its rooms, and so does one over any storage that is empty and that
keeps the laws, however its calls fail, once it was opened.  Then, whatever gestures are made, both
show the same of every room all the time and answer every move alike; neither is ever halted.
While the clock does not run out they are not halted for want of a date either. -/
theorem failures_lose_nothing {storage : τ} (hsound : Viewed.sound storage)
    (hempty : Viewed.contents storage = .empty) (seed seed' : Nat) :
    ∃ s₀ s, (Session.openOver (.seeded seed) {} Shelf.empty).1 = .ok s₀ ∧
      createRooms ((List.finRange roomCount).map roomName) s₀ = .ok s ∧
      ∀ u₀, Opened (.seeded seed') storage u₀ →
        ∃ u, createRooms ((List.finRange roomCount).map roomName) u₀ = .ok u ∧
          ∀ gs : List Gesture, Together play play s u (World.moves .start gs) ∧
            (Ambient.epoch + Gesture.allMillis gs < Sum64.bound →
              Together perform perform s u (World.moves .start gs)) := by
  obtain ⟨s, hcreate, hs, hambient⟩ :=
    exists_accompanies_start (.seeded seed) Shelf.empty trivial rfl
  refine ⟨_, s, congrArg Prod.fst (openOver_empty _), hcreate, fun u₀ hopened => ?_⟩
  obtain ⟨storage', rfl, hsound', hempty'⟩ := hopened.eq_beginning hsound hempty
  obtain ⟨u, hcreate', hu, hambient'⟩ :=
    exists_accompanies_start (.seeded seed') storage' hsound' hempty'
  have hl : ∀ storage : Shelf, ∃ es storage', list storage = (.ok es, storage') :=
    fun storage => ⟨_, _, rfl⟩
  have hnow : s.tracker.ambient.elapsed = 0 * Ambient.nanosPerMilli := by
    rw [hambient]
    rfl
  have hnow' : u.tracker.ambient.elapsed = 0 * Ambient.nanosPerMilli := by
    rw [hambient']
    rfl
  refine ⟨u, hcreate', fun gs => ⟨?_, fun hd => ?_⟩⟩
  · exact hs.together hu hl (fun _ _ _ _ _ => rfl) (fun _ _ _ _ _ => rfl) 0 hnow hnow'
      (Nat.le_refl _)
  · have hdated : ∀ millis ≤ 0 + Gesture.allMillis gs,
        Ambient.epoch + millis < Sum64.bound := by omega
    exact hs.together hu hl
      (fun _ m _ he hle => perform_of_hasDate (Ambient.hasDate_of_lt he (hdated _ hle)) m)
      (fun _ m _ he hle => perform_of_hasDate (Ambient.hasDate_of_lt he (hdated _ hle)) m)
      0 hnow hnow' (Nat.le_refl _)

end Two

/-- Half of all calls to the storage fail. -/
theorem failures_lose_nothing_at_even_odds :
    let storage : Faulty Shelf := .around .empty (1 <<< 63) 23
    let gs : List Gesture := [.botMessage 0, .botThreadReply 0 0, .enter 0, .restart,
      .readElsewhere 0 1, .jump 0 1 false, .restart]
    ∃ s₀ s, (Session.openOver (.seeded 7) {} Shelf.empty).1 = .ok s₀ ∧
      createRooms ((List.finRange roomCount).map roomName) s₀ = .ok s ∧
      ∃ u₀ u, Opened (.seeded 3) storage u₀ ∧
        createRooms ((List.finRange roomCount).map roomName) u₀ = .ok u ∧
        Together perform perform s u (World.moves .start gs) := by
  intro storage gs
  obtain ⟨s₀, s, hopen, hcreate, htogether⟩ :=
    failures_lose_nothing (show Viewed.sound storage from trivial) rfl 7 3
  have hok : (Session.openOver (.seeded 3) {} storage).1.toBool = true := by decide +kernel
  have hclock : Ambient.epoch + Gesture.allMillis gs < Sum64.bound := by decide
  rcases hopen' : Session.openOver (.seeded 3) {} storage with ⟨answer, storage'⟩
  rw [hopen'] at hok
  cases answer with
  | error why => cases hok
  | ok u₀ =>
    obtain ⟨u, hcreate', hboth⟩ := htogether u₀ (.first hopen')
    exact ⟨s₀, s, hopen, hcreate, u₀, u, .first hopen', hcreate', (hboth gs).2 hclock⟩

end Session

end ReadTracking
