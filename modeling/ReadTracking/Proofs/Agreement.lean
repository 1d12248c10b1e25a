import ReadTracking.Proofs.Posting
import ReadTracking.Proofs.Restarting
import ReadTracking.Session.Perform

/-!
# Sessions agree with the plain account

A session is played along with the account: what the account accepts is carried out, and what it
rejects is refused.  At the start and after every gesture the session shows of every room what the
account says.
-/

set_option autoImplicit false

namespace ReadTracking

open Backing KeyOrder Reference Reference.World

/-! ## What a session shows -/

namespace Session

variable {σ : Type} [Backing σ]

def labelOf (labels : Table EventId String) (event : EventId) : String :=
  (labels.get? event).getD ""

def view (s : Session σ) (name : String) (bodies : List String) : Except Halt RoomView := do
  let room ← s.roomOf name
  let events ← bodies.mapM fun body => (s.eventOf name body).map fun event => (event, body)
  return (s.tracker.roomState room).seen name (labelOf (.ofList events))

def views (s : Session σ) (w : World) : Except Halt (List RoomView) :=
  (List.finRange roomCount).mapM fun i => s.view (roomName i) (w.bodies i)

/-- What must become of a gesture: if it is skipped nothing is done, and a move is carried out or
refused as the account says. -/
def Answers (play : Session σ → Move → Except Halt (Session σ × Except Refusal Unit))
    (s : Session σ) : Resolved → Session σ → Prop
  | .skipped, s' => s' = s
  | .accepted m, s' => play s m = .ok (s', .ok ())
  | .rejected m, s' => ∃ why, play s m = .ok (s', .error why)

/-- A session that is played along with an account shows what the account says, before every
gesture and at the end, and is never halted. -/
def Agrees (play : Session σ → Move → Except Halt (Session σ × Except Refusal Unit)) :
    World → Session σ → List Gesture → Prop
  | w, s, [] => s.views w = .ok w.view
  | w, s, g :: gs => s.views w = .ok w.view ∧
      ∃ s', Answers play s (w.apply g).2 s' ∧ Agrees play (w.apply g).1 s' gs

end Session

theorem mapM_eq_ok {α β ε : Type} {f : α → Except ε β} {g : α → β} {l : List α}
    (h : ∀ a ∈ l, f a = .ok (g a)) : l.mapM f = .ok (l.map g) := by
  induction l with
  | nil => rfl
  | cons a l ih =>
    rw [List.mapM_cons, h a List.mem_cons_self, ih fun a ha => h a (List.mem_cons_of_mem _ ha)]
    rfl

namespace Session

variable {σ : Type} [Backing σ] [Steady σ] {w : World} {s : Session σ} {i : Fin roomCount}

theorem Follows.eventOf_body (h : s.Follows w) {x : Happening} (hm : x ∈ (w.room i).happenings)
    {body : String} (hb : x.body = some body) : s.eventOf (roomName i) body = .ok x.id := by
  simp only [eventOf, h.roomOf (List.ne_nil_of_mem hm), bind, Except.bind, find,
    h.records.resolve hm hb, Except.mapError]

theorem Follows.view_eq (h : s.Follows w) (hj : (w.room i).happenings ≠ []) :
    s.view (roomName i) (w.bodies i) = .ok ((w.room i).view (roomName i)) := by
  let event : String → EventId := fun body => (s.eventOf (roomName i) body).toOption.getD default
  have hevent : ∀ x ∈ (w.room i).happenings, ∀ body, x.body = some body → event body = x.id := by
    intro x hm body hb
    simp only [event, h.eventOf_body hm hb]
    rfl
  have hevents : (w.bodies i).mapM (fun body =>
      (s.eventOf (roomName i) body).map fun event => (event, body)) =
      .ok ((w.bodies i).map fun body => (event body, body)) := by
    refine mapM_eq_ok fun body hb => ?_
    obtain ⟨x, hm, hb⟩ := List.mem_filterMap.1 hb
    rw [hevent x hm body hb, h.eventOf_body hm hb]
    rfl
  have hlabel : ∀ place ∈ (w.room i).roots,
      labelOf (.ofList ((w.bodies i).map fun body => (event body, body)))
        ((w.room i).rootId place) = (w.room i).labelAt place := by
    intro place hplace
    obtain ⟨root, hr⟩ := Chronicle.Knows.root_of_mem_roots h.orderly hplace
    obtain ⟨hm, htarget, -⟩ := h.root_of_mem_roots hplace hr
    obtain ⟨body, hb⟩ := h.orderly.labelled hm htarget
    have honly : ∀ v, (root.id, v) ∈ (w.bodies i).map (fun body => (event body, body)) →
        v = body := by
      intro v hv
      obtain ⟨v', hv', he⟩ := List.mem_map.1 hv
      obtain ⟨x, hx, hxb⟩ := List.mem_filterMap.1 hv'
      obtain ⟨hid, rfl⟩ := Prod.mk.inj he
      rw [hevent x hx v' hxb] at hid
      obtain ⟨-, rfl⟩ := h.orderly.id_inj hx hm hid
      exact Option.some.inj (hxb.symm.trans hb)
    have hmem : (root.id, body) ∈ (w.bodies i).map fun body => (event body, body) :=
      List.mem_map.2 ⟨body, List.mem_filterMap.2 ⟨root, hm, hb⟩, by rw [hevent root hm body hb]⟩
    have hget : (Table.ofList ((w.bodies i).map fun body => (event body, body))).get? root.id =
        some body := (Table.empty : Table EventId String).get?_insertAll_of_distinct
      (fun v v' hv hv' => (honly v hv).trans (honly v' hv').symm) hmem
    rw [labelOf, rootId_of_getElem? hr, hget, Room.labelAt, hr]
    simp only [Option.map_some, Option.getD_some, Happening.label, hb]
  have hseen := h.knows.seen_roomState h.orderly (fun _ => id)
    (fun hp => ⟨h.reads_of_covers hp, h.complete⟩) hlabel (roomName i)
  simp only [view, h.roomOf hj, bind, Except.bind, hevents]
  exact congrArg Except.ok hseen

/-! ## Playing along -/

structure Accompanies (w : World) (s : Session σ) : Prop extends Watches w s where
  joined : ∀ i : Fin roomCount, (w.room i).happenings ≠ []

theorem Accompanies.views_eq (h : s.Accompanies w) : s.views w = .ok w.view :=
  mapM_eq_ok fun i _ => h.view_eq (h.joined i)

def Makes (s : Session σ) (nanos : Nat) (o : World × Resolved) : Prop :=
  ∃ s', Answers play s o.2 s' ∧ s'.Accompanies o.1 ∧
    s'.tracker.ambient = s.tracker.ambient.wait nanos

theorem Accompanies.skipped (h : s.Accompanies w) : s.Makes 0 (w, .skipped) :=
  ⟨s, rfl, h, rfl⟩

theorem Accompanies.read (h : s.Accompanies w) {w' : World} {m : Move} {nanos : Nat}
    (hh : ∀ i : Fin roomCount, (w'.room i).happenings = (w.room i).happenings)
    (hm : ∃ s', s.play m = .ok (s', .ok ()) ∧ s'.Watches w' ∧
      s'.tracker.ambient = s.tracker.ambient.wait nanos) : s.Makes nanos (w', .accepted m) := by
  obtain ⟨s', hplay, hwatches, hambient⟩ := hm
  refine ⟨s', hplay, ⟨hwatches, fun i => ?_⟩, hambient⟩
  rw [hh]
  exact h.joined i

theorem Accompanies.post (h : s.Accompanies w) {x : Happening} {own : Bool} {m : Move}
    (hm : ∃ s', s.play m = .ok (s', .ok ()) ∧ s'.Watches (w.post i x own) ∧
      s'.tracker.ambient = s.tracker.ambient) : s.Makes 0 (w.post i x own, .accepted m) := by
  obtain ⟨s', hplay, hwatches, hambient⟩ := hm
  refine ⟨s', hplay, ⟨hwatches, fun j => ?_⟩, hambient⟩
  rw [happenings_post, happenings_add]
  split
  next => exact List.append_ne_nil_of_right_ne_nil _ (List.cons_ne_nil _ _)
  next => exact h.joined j

omit [Steady σ] in
theorem play_always {m : Move} {played : Except Halt (Session σ)}
    (hp : s.play m = always played) {P : Session σ → Prop}
    (h : ∃ s', played = .ok s' ∧ P s') : ∃ s', s.play m = .ok (s', .ok ()) ∧ P s' := by
  obtain ⟨s', rfl, hs⟩ := h
  exact ⟨s', hp, hs⟩

theorem Accompanies.newLabel (h : s.Accompanies w) (stem : String) :
    s.Accompanies (w.newLabel stem).1 :=
  ⟨⟨h.toFollows.same (h.orderly.newLabel stem) rfl rfl, ⟨h.looks.place, h.looks.focus,
    h.looks.current⟩, h.own⟩, h.joined⟩

theorem Accompanies.botSends (h : s.Accompanies w) {body : Option String} {thread : Option Nat}
    {role : Role} {d : Draft} (hd : w.Drafted i ⟨body, w.nextSequence, thread, role⟩ d)
    (hgiven : ∀ {text}, body = some text →
      (∃ stem n, stem.length = 1 ∧ n ≤ w.labels ∧ text = stem ++ toString n) ∧
        ∀ x ∈ (w.room i).happenings, x.body ≠ some text)
    (ho : Happening.own ⟨body, w.nextSequence, thread, role⟩ = false) :
    s.Makes 0 (w.happen i body thread role, .accepted (.botSends (roomName i) [d])) := by
  rw [happen_eq_post]
  have hf := hd.fresh h.orderly rfl hgiven
  exact h.post (play_always rfl (h.toWatches.botSends (h.joined i) hd hf ho))

theorem Accompanies.withTarget (h : s.Accompanies w) {n : UInt8} {fits : Happening → Bool}
    {f : Happening → Nat → World × Resolved}
    (hf : ∀ x place, (w.room i).happenings[place]? = some x → fits x = true →
      s.Makes 0 (f x place)) : s.Makes 0 (w.withTarget i n fits f) := by
  unfold World.withTarget
  cases hp : (w.room i).pick n fits with
  | none => exact h.skipped
  | some found =>
    obtain ⟨x, place⟩ := found
    obtain ⟨hx, hfits⟩ := Room.pick_eq_some hp
    exact hf x place hx hfits

end Session

theorem Ambient.hasDate_of_lt {a : Ambient} {millis : Nat}
    (he : a.elapsed = millis * Ambient.nanosPerMilli) (h : Ambient.epoch + millis < Sum64.bound) :
    a.hasDate = true := by
  have hnow : a.elapsedMillis = millis := by
    rw [Ambient.elapsedMillis, he]
    exact Nat.mul_div_cancel _ (by decide)
  have hlt : millis < Sum64.bound := by omega
  rw [Ambient.hasDate, Ambient.date?, Sum64.add?_isSome, Sum64.fits_iff, hnow,
    Nat.mod_eq_of_lt hlt]
  exact h

def Reference.Gesture.millis : Gesture → Nat
  | .wait millis => millis.toNat
  | _ => 0

def Reference.Gesture.allMillis (gs : List Gesture) : Nat := gs.foldr (fun g n => g.millis + n) 0

def Reference.Gesture.nanos : Gesture → Nat
  | .wait millis => millis.toNat * Ambient.nanosPerMilli
  | _ => 0

theorem Reference.Gesture.nanos_eq (g : Gesture) : g.nanos = g.millis * Ambient.nanosPerMilli := by
  cases g <;> simp only [nanos, millis, Nat.zero_mul]

theorem Reference.Gesture.elapsed_wait (g : Gesture) {a a' : Ambient} (ha : a' = a.wait g.nanos)
    {millis : Nat} (he : a.elapsed = millis * Ambient.nanosPerMilli) :
    a'.elapsed = (millis + g.millis) * Ambient.nanosPerMilli := by
  rw [ha, Nat.add_mul, ← he, ← g.nanos_eq]
  rfl

namespace Session

variable {σ : Type} [Backing σ] [Steady σ] {w : World} {s : Session σ} {i : Fin roomCount}

theorem Accompanies.openThread (h : s.Accompanies w) (n : UInt8) :
    s.Makes 0 (w.apply (.openThread n)) := by
  simp only [World.apply]
  cases hg : w.gaze with
  | none => exact h.skipped
  | some g =>
    dsimp only
    cases hroot : (w.room g.room).roots[n.toNat % (w.room g.room).roots.length]? with
    | none => exact h.skipped
    | some root =>
      have hr := List.mem_of_getElem? hroot
      obtain ⟨x, hx⟩ := Chronicle.Knows.root_of_mem_roots h.orderly hr
      have hlabel : (w.room g.room).labelAt root = x.label := by
        rw [Room.labelAt, hx, Option.map_some, Option.getD_some]
      simp only [hx, hlabel]
      refine h.read (fun j => ?_) (play_always rfl (h.toWatches.openThread hg hr hx))
      rw [happenings_change rfl, happenings_change (Room.happenings_advanceToHead _)]

/-- Whatever gesture is made, the session makes it as the account does.  To restart, it must be
able to list its storage. -/
theorem Accompanies.step (h : s.Accompanies w) (g : Gesture)
    (hl : g = .restart → ∃ es storage, list s.tracker.book.storage = (.ok es, storage)) :
    s.Makes g.nanos (w.apply g) := by
  cases g with
  | botMessage n =>
    exact (h.newLabel "m").botSends (.sent (.inl rfl)) (h.orderly.label_fresh rfl) rfl
  | botThreadReply n root =>
    refine h.withTarget fun x place hx hfits => ?_
    exact (h.newLabel "t").botSends (.replied hx hfits) (h.orderly.label_fresh rfl) rfl
  | botReaction n target =>
    refine h.withTarget fun x place hx hfits => ?_
    exact h.botSends (.reacted (List.mem_of_getElem? hx) hfits) nofun rfl
  | botEdit n target =>
    refine h.withTarget fun x place hx hfits => ?_
    exact (h.newLabel "e").botSends (.edited (List.mem_of_getElem? hx) hfits)
      (h.orderly.label_fresh rfl) rfl
  | ownMessage n =>
    have h' := h.newLabel "o"
    have hd : (w.newLabel "o").1.Drafted (Reference.roomOf n)
        ⟨some (w.newLabel "o").2, (w.newLabel "o").1.nextSequence, none, .ownMessage⟩
        (.plain (w.newLabel "o").2) := .sent (.inr rfl)
    have hf := hd.fresh h'.orderly rfl (h.orderly.label_fresh rfl)
    have hmakes := h'.post (m := .userSends _ _)
      (play_always rfl (h'.toWatches.userSends (h'.joined _) hd hf rfl))
    rw [← change_happen_eq_post] at hmakes
    exact hmakes
  | enter n =>
    exact h.read (fun j => happenings_change (Room.happenings_advanceToHead _) j)
      (play_always rfl (h.toWatches.enter (h.joined _)))
  | openThread n => exact h.openThread n
  | closeThread => exact h.read (fun _ => rfl) (play_always rfl h.toWatches.closeThread)
  | leave => exact h.read (fun _ => rfl) (play_always rfl h.toWatches.leave)
  | markRead n =>
    exact h.read (happenings_change (Room.readsMore_markRead _).happenings)
      (play_always rfl (h.toWatches.markRead (h.joined _)))
  | readElsewhere n target =>
    refine h.withTarget fun x place hx hfits => ?_
    exact h.read (happenings_change rfl)
      (play_always rfl (h.toWatches.readElsewhere (List.mem_of_getElem? hx) hfits))
  | memberReads n target =>
    refine h.withTarget fun x place hx hfits => ?_
    exact h.read (fun _ => rfl)
      (play_always rfl (h.toWatches.memberReads (List.mem_of_getElem? hx) hfits))
  | jump n target includeThreads =>
    refine h.withTarget fun x place hx hfits => ?_
    have hm := List.mem_of_getElem? hx
    cases hclosed : x.thread.isSome && !includeThreads with
    | true =>
      obtain ⟨hthread, hthreads⟩ := (Bool.and_eq_true _ _).mp hclosed
      obtain ⟨place, hplace⟩ := Option.isSome_iff_exists.1 hthread
      obtain rfl : includeThreads = false := Bool.not_eq_true' _ ▸ hthreads
      obtain ⟨s', hplay, hwatches, hambient⟩ := h.toWatches.jump_refused hm hfits hplace
      exact ⟨s', ⟨_, hplay⟩, ⟨hwatches, h.joined⟩, hambient⟩
    | false =>
      exact h.read (happenings_change rfl) (h.toWatches.jump hm hfits hclosed)
  | restart =>
    obtain ⟨es, storage, hlist⟩ := hl rfl
    exact h.read (fun _ => rfl) (h.toWatches.restart hlist)
  | wait millis => exact h.read (fun _ => rfl) (play_always rfl (h.toWatches.wait millis.toNat))

/-- Played along with an account, a session agrees with it. -/
theorem Accompanies.agrees (h : s.Accompanies w)
    (hl : ∀ storage : σ, ∃ es storage', list storage = (.ok es, storage')) (gs : List Gesture) :
    Agrees play w s gs := by
  induction gs generalizing w s with
  | nil => exact h.views_eq
  | cons g gs ih =>
    obtain ⟨s', hanswers, h', -⟩ := h.step g fun _ => hl _
    exact ⟨h.views_eq, s', hanswers, ih h'⟩

omit [Steady σ] in
theorem Answers.perform {s' : Session σ} {r : Resolved} (h : Answers play s r s')
    (hd : s.tracker.ambient.hasDate = true) : Answers perform s r s' := by
  cases r with
  | skipped => exact h
  | accepted m => exact (perform_of_hasDate hd m).trans h
  | rejected m => exact h.imp fun _ hw => (perform_of_hasDate hd m).trans hw

theorem Accompanies.agrees_perform (h : s.Accompanies w)
    (hl : ∀ storage : σ, ∃ es storage', list storage = (.ok es, storage')) {gs : List Gesture}
    (millis : Nat) (he : s.tracker.ambient.elapsed = millis * Ambient.nanosPerMilli)
    (hd : Ambient.epoch + (millis + Gesture.allMillis gs) < Sum64.bound) :
    Agrees perform w s gs := by
  induction gs generalizing w s millis with
  | nil => exact h.views_eq
  | cons g gs ih =>
    rw [Gesture.allMillis, List.foldr_cons] at hd
    obtain ⟨s', hanswers, h', hambient⟩ := h.step g fun _ => hl _
    have hdate := Ambient.hasDate_of_lt he (by omega)
    refine ⟨h.views_eq, s', hanswers.perform hdate,
      ih h' (millis + g.millis) (g.elapsed_wait hambient he) ?_⟩
    rw [Nat.add_assoc]
    exact hd

/-! ## The beginning -/

def beginning (ambient : Ambient) (storage : σ) : Session σ :=
  { tracker := .fresh ambient {} me ⟨storage, .empty, .empty⟩ }

theorem openOver_empty (ambient : Ambient) :
    Session.openOver ambient {} Shelf.empty = (.ok (beginning ambient Shelf.empty), Shelf.empty) :=
  rfl

theorem watches_beginning (ambient : Ambient) {storage : σ} (hsound : Viewed.sound storage)
    (hempty : Viewed.contents storage = .empty) :
    (beginning ambient storage).Watches nowhere := by
  have hh : ∀ i : Fin roomCount, (nowhere.room i).happenings = [] := by decide
  have hm : ∀ i : Fin roomCount, (nowhere.room i).marks = .empty := by decide
  have hnot : ∀ {i : Fin roomCount} {x}, x ∉ (nowhere.room i).happenings := by
    intro i x hx
    rw [hh] at hx
    cases hx
  have hunread : ∀ {i : Fin roomCount} {thread q}, ¬ (nowhere.room i).Reads thread q := by
    rintro i thread q ⟨m, hget, -⟩
    rw [hm] at hget
    cases hget
  have hrecords : ({} : Server).Records nowhere := by
    refine ⟨fun i => ?_, fun {i body id} => ⟨fun hb => ?_, ?_⟩, rfl, rfl⟩
    · rw [hh]
      exact .nil
    · cases hb
    · rintro ⟨x, hx, -⟩
      exact absurd hx hnot
  have hknows : (Chronicle.empty (.of me {})).Knows nowhere nowhere.Happened :=
    (Chronicle.Knows.empty nowhere).of_iff fun _ _ => ⟨False.elim, hnot⟩
  have hwritten : (beginning ambient storage).tracker.book.WrittenThrough [] := by
    refine ⟨hsound, fun h => (by cases h), fun slot m h => ?_, fun h => (by cases h),
      fun h => (by cases h)⟩
    have h : (Viewed.contents storage).get? slot = some m := h
    rw [hempty] at h
    cases h
  have hcovers : ∀ {scope q}, ¬ (beginning ambient storage).tracker.book.covers scope q = true := by
    intro scope q hc
    obtain ⟨v, m, hget, -⟩ := MarkerBook.covers_iff.1 hc
    cases hget
  have htracks : (beginning ambient storage).Tracks nowhere nowhere.Happened :=
    ⟨orderly_nowhere, hrecords, nofun, ⟨rfl, rfl, fun _ => rfl⟩, rfl, rfl, rfl, rfl, hwritten,
      hknows, fun hc => absurd hc hcovers⟩
  refine ⟨⟨htracks, fun hr => absurd hr hunread, fun hr => absurd hr hunread, nofun,
    fun {name room} => ⟨nofun, ?_⟩, rfl, rfl⟩, looks_nowhere nowhere, fun i x hx => absurd hx hnot⟩
  rintro ⟨i, hne, -⟩
  exact absurd (hh i) hne

/-- A session that begins over an empty storage joins its rooms. -/
theorem exists_accompanies_start (ambient : Ambient) (storage : σ)
    (hsound : Viewed.sound storage) (hempty : Viewed.contents storage = .empty) :
    ∃ s, createRooms ((List.finRange roomCount).map roomName) (beginning ambient storage) = .ok s ∧
      s.Accompanies .start ∧ s.tracker.ambient = ambient := by
  obtain ⟨s, hcreate, hwatches, hambient⟩ :=
    (watches_beginning ambient hsound hempty).createRooms (List.finRange roomCount)
  rw [← start_eq_join] at hwatches
  exact ⟨s, hcreate, ⟨hwatches, by decide⟩, hambient⟩

/-- A new session over an empty storage joins its rooms.  Then, whatever gestures are made, it
agrees with the plain account, and while the clock does not run out it is not halted for want of a
date either. -/
theorem agrees_with_account (seed : Nat) :
    ∃ s₀ s, (Session.openOver (.seeded seed) {} Shelf.empty).1 = .ok s₀ ∧
      createRooms ((List.finRange roomCount).map roomName) s₀ = .ok s ∧
      ∀ gs : List Gesture, Agrees play .start s gs ∧
        (Ambient.epoch + Gesture.allMillis gs < Sum64.bound →
          Agrees perform .start s gs) := by
  obtain ⟨s, hcreate, haccompanies, hambient⟩ :=
    exists_accompanies_start (.seeded seed) Shelf.empty trivial rfl
  have hl : ∀ storage : Shelf, ∃ es storage', list storage = (.ok es, storage') :=
    fun storage => ⟨_, _, rfl⟩
  refine ⟨_, s, congrArg Prod.fst (openOver_empty _), hcreate,
    fun gs => ⟨haccompanies.agrees hl gs, fun hd => ?_⟩⟩
  refine haccompanies.agrees_perform hl 0 ?_ ?_
  · rw [hambient]
    rfl
  · rw [Nat.zero_add]
    exact hd

/-- A message is sent and read, and its thread is read elsewhere after a restart. -/
theorem agrees_with_account_after_restart :
    ∃ s₀ s, (Session.openOver (.seeded 7) {} Shelf.empty).1 = .ok s₀ ∧
      createRooms ((List.finRange roomCount).map roomName) s₀ = .ok s ∧
      Agrees perform .start s [.botMessage 0, .botThreadReply 0 0, .enter 3, .wait 500, .restart,
        .readElsewhere 0 1, .jump 0 1 false] := by
  obtain ⟨s₀, s, hopen, hcreate, hagrees⟩ := agrees_with_account 7
  exact ⟨s₀, s, hopen, hcreate, (hagrees _).2 (by decide)⟩

end Session

end ReadTracking
