import ReadTracking.Proofs.Conduct
import ReadTracking.Proofs.Forward
import ReadTracking.Proofs.Persistence

/-!
# Markers and messages are all there is to remember

A tracker that is opened over the markers of an earlier one, and takes the same batches in the
same order, ends with the same read state of every room.  Nothing else of the earlier course is
done again: all that was wished in it is in the markers, and what the batches wish anew was
granted when they came first.
-/

set_option autoImplicit false

namespace ReadTracking

def Moment.command? : Moment → Option Command
  | .command c => some c
  | .surroundings _ | .subscribe | .unsubscribe _ => none

theorem MarkerBook.marks_of_openOver {σ : Type} [Backing σ] [Backing.Lawful σ] {s : σ}
    {b : MarkerBook σ} (hs : Backing.Viewed.sound s) (h : (openOver s).1 = .ok b) :
    b.marks = Backing.Viewed.contents s := by
  unfold openOver at h
  split at h
  next es s' hl =>
    cases h
    exact (Backing.Viewed.list_ok hs hl).2.2
  next => cases h

namespace Tracker

variable {σ : Type}

def repeated (t : Tracker σ) : Moment → Option Command
  | .command (.receive room messages limited) => some (.receive room messages limited)
  | .command (.backfill room messages filled) => some (.backfill room messages filled)
  | .command (.supply request messages) =>
    (t.awaited.filter fun a => a.request = request).map fun a => .backfill a.room messages none
  | .command (.markRoomRead _) | .command (.viewRoom _) | .command (.viewThread _ _)
  | .command .closeThread | .command .leave | .command (.jump _ _ _)
  | .command (.receipt _ _ _ _ _) | .command (.sendFailed _ _ _) | .command (.forget _)
  | .command (.tick _) | .surroundings _ | .subscribe | .unsubscribe _ => none

theorem repeated_cases (t : Tracker σ) (m : Moment) :
    (∃ c c' b, m = .command c ∧ t.batch? c = some b ∧ t.repeated m = some c' ∧
      c'.batch? = some b) ∨
      t.repeated m = none ∧ ∀ c, m = .command c → t.batch? c = none := by
  cases m with
  | surroundings | subscribe | unsubscribe => exact .inr ⟨rfl, nofun⟩
  | command c =>
    cases c with
    | receive room messages limited => exact .inl ⟨_, _, _, rfl, rfl, rfl, rfl⟩
    | backfill room messages filled => exact .inl ⟨_, _, _, rfl, rfl, rfl, rfl⟩
    | supply request messages =>
      cases ha : t.awaited.filter fun a => a.request = request with
      | none =>
        refine .inr ⟨by simp only [repeated, ha, Option.map_none], ?_⟩
        intro c e
        cases e
        simp only [batch?, ha, Option.map_none]
      | some a =>
        refine .inl ⟨_, .backfill a.room messages none, _, rfl, ?_, ?_, rfl⟩
        · simp only [batch?, ha, Option.map_some]
        · simp only [repeated, ha, Option.map_some]
    | markRoomRead | viewRoom | viewThread | closeThread | leave | jump | receipt | sendFailed
    | forget | tick =>
      refine .inr ⟨rfl, ?_⟩
      intro c e
      cases e
      rfl

/-- One tracker has indexed what another has and stands at given markers.  It holds nothing and
looks at nothing. -/
structure Replays (marks : Table Slot Mark) (t u : Tracker σ) : Prop where
  policy : u.policy = t.policy
  reader : u.reader = t.reader
  chronicle : u.chronicle = t.chronicle
  focus : u.focus = none
  held : ∀ id, u.held.get? id = none
  marks : u.book.marks = marks

variable [Backing σ]

def replay : Tracker σ → List Moment → List Command
  | _, [] => []
  | t, m :: ms => (t.repeated m).toList ++ (t.meet m).tracker.replay ms

namespace Replays

variable {marks : Table Slot Mark} {t u : Tracker σ}

/-- The other tracker may do as it likes as long as it brings nothing and forgets nothing. -/
theorem idle (h : t.Replays marks u) {m : Moment} (hm : ∀ c, m = .command c → t.batch? c = none)
    (hf : ∀ room, m ≠ .command (.forget room)) : (t.meet m).tracker.Replays marks u := by
  cases m with
  | surroundings | subscribe | unsubscribe =>
    exact ⟨h.policy, h.reader, h.chronicle, h.focus, h.held, h.marks⟩
  | command c =>
    obtain ⟨ws, place, hc⟩ := t.conducts c fun room e => hf room (congrArg Moment.command e)
    have hg := hc.grants
    rw [loaded_eq_self (hm c rfl)] at hg
    exact ⟨h.policy.trans hg.policy.symm, h.reader.trans hg.reader.symm,
      h.chronicle.trans hg.chronicle.symm, h.focus, h.held, h.marks⟩

theorem wait (h : t.Replays marks u) {ms : List Moment} (hms : ∀ m ∈ ms, m.command? = none) :
    t.Replays marks (u.after ms) := by
  induction ms generalizing u with
  | nil => exact h
  | cons m ms ih =>
    refine ih ?_ fun m' hm' => hms m' (List.mem_cons_of_mem _ hm')
    have hm := hms m List.mem_cons_self
    cases m with
    | surroundings | subscribe | unsubscribe =>
      exact ⟨h.policy, h.reader, h.chronicle, h.focus, h.held, h.marks⟩
    | command => cases hm

/-- Both take a batch.  What it wishes was granted to the other tracker, so it changes no marker
that has gone further since. -/
theorem take (h : t.Replays marks u) {c c' : Command} {b : Batch} (hb : t.batch? c = some b)
    (hb' : c'.batch? = some b) (hf : ∀ room, c ≠ .forget room)
    (ho : Onward (t.handle c).tracker.book.marks marks) :
    (t.handle c).tracker.Replays marks (u.handle c').tracker := by
  obtain ⟨ws, place, hconduct⟩ := t.conducts c hf
  have hg := hconduct.grants
  have hs := settled_handle hb' h.focus
  have hbu : u.batch? c' = some b := batch?_of_batch? hb'
  have hl := loaded_eq hb
  have hlu := loaded_eq hbu
  have hp : u.placed c' = t.placed c := by rw [placed_eq hb, placed_eq hbu, h.chronicle]
  have hc : (u.loaded c').chronicle = (t.loaded c).chronicle := by rw [hl, hlu, h.chronicle]
  refine ⟨?_, ?_, ?_, hs.focus, fun id => ?_, ?_⟩
  · rw [hs.policy, h.policy, hg.policy, hl]
  · rw [hs.reader, h.reader, hg.reader, hl]
  · rw [hs.chronicle, hc, hg.chronicle]
  · rw [hs.held, h.held, ite_self]
  · rw [hs.marks, h.marks]
    refine Wish.grantAll_of_reaches fun w hw => ho.reaches ?_
    obtain ⟨p, hpu, hw⟩ := List.mem_flatMap.1 hw
    have hheld : (u.loaded c').heldWishes p = [] := by
      simp only [heldWishes, hlu, h.held]
    have hown : (u.loaded c').ownWishes p = (t.loaded c).ownWishes p := by
      simp only [ownWishes, hlu, hl, h.chronicle, h.reader, h.policy]
    rw [wishes, hheld, hown, List.append_nil] at hw
    have hgranted : w ∈ ws := hconduct.arrival (List.mem_flatMap.2
      ⟨p, hp ▸ hpu, List.mem_append_left _ hw⟩)
    rw [hg.marks]
    exact Wish.reaches_grantAll.2 (.inr ⟨w, hgranted, rfl, Nat.le_refl _⟩)

/-- The run: the batches of a course one by one, with anything but commands between them. -/
theorem replay {ms ms' : List Moment} (h : t.Replays (t.after ms).book.marks u)
    (hf : ∀ room, .command (.forget room) ∉ ms)
    (hr : ms'.filterMap Moment.command? = t.replay ms) :
    (t.after ms).Replays (t.after ms).book.marks (u.after ms') := by
  induction ms generalizing t u ms' with
  | nil =>
    refine h.wait fun m hm => ?_
    exact List.filterMap_eq_nil_iff.1 hr m hm
  | cons m ms ih =>
    have hm : ∀ room, m ≠ .command (.forget room) := fun room e => hf room (e ▸ List.mem_cons_self)
    have hms : ∀ room, .command (.forget room) ∉ ms :=
      fun room h => hf room (List.mem_cons_of_mem _ h)
    rcases t.repeated_cases m with ⟨c, c', b, rfl, hb, hc', hb'⟩ | ⟨hn, hidle⟩
    · have hsplit : ms'.filterMap Moment.command? = c' :: (t.handle c).tracker.replay ms := by
        rw [hr, Tracker.replay, hc']
        rfl
      obtain ⟨pre, m', post, rfl, hpre, hm', hpost⟩ := List.filterMap_eq_cons_iff.1 hsplit
      cases m' with
      | surroundings | subscribe | unsubscribe => cases hm'
      | command =>
        cases hm'
        have hfirst := (h.wait hpre).take hb hb'
          (fun room e => hm room (congrArg Moment.command e)) (onward_after hms)
        rw [after_append]
        have hrest := ih hfirst hms hpost
        exact hrest
    · refine ih (h.idle hidle hm) hms ?_
      rw [hr, Tracker.replay, hn]
      rfl

end Replays

theorem replays_of_openOver [Backing.Lawful σ] {ambient ambient' : Ambient} {policy : Policy}
    {reader : UserId} {s s' : σ} {t t' : Tracker σ}
    (ht : (openOver ambient policy reader s).1 = .ok t) (hs' : Backing.Viewed.sound s')
    (ht' : (openOver ambient' policy reader s').1 = .ok t') :
    t.Replays (Backing.Viewed.contents s') t' := by
  obtain ⟨book, rfl, -⟩ := eq_fresh_of_openOver ht
  obtain ⟨book', rfl, hbook'⟩ := eq_fresh_of_openOver ht'
  exact ⟨rfl, rfl, rfl, rfl, fun _ => rfl, MarkerBook.marks_of_openOver hs' hbook'⟩

/-- A tracker that is opened over the storage of an earlier one, with nothing left to be written,
and takes the batches of its course once more, ends with the same state of every room. -/
theorem replay_restores_rooms [Backing.Lawful σ] {ambient ambient' : Ambient} {policy : Policy}
    {reader : UserId} {s : σ} (hs : Backing.Viewed.sound s) {t t' : Tracker σ}
    (ht : (openOver ambient policy reader s).1 = .ok t) {ms ms' : List Moment}
    (hms : ∀ m ∈ ms, m.Within (Backing.Viewed.capacity σ))
    (hf : ∀ room, .command (.forget room) ∉ ms)
    (hu : (t.after ms).book.unflushed.size = 0)
    (ht' : (openOver ambient' policy reader (t.after ms).book.storage).1 = .ok t')
    (hr : ms'.filterMap Moment.command? = t.replay ms) (room : RoomId) :
    (t'.after ms').roomState room = (t.after ms).roomState room := by
  have hwithin : t.chronicle.Within (Backing.Viewed.capacity σ) := by
    obtain ⟨book, rfl, -⟩ := eq_fresh_of_openOver ht
    exact Chronicle.within_empty _ _
  have hwritten := writtenThrough_after (writtenThrough_of_openOver hs ht) hwithin hms
    (fun m hm room e => absurd (e ▸ hm) (hf room)) (not_storageFailed_of_no_forget hf)
  have hstored : Backing.Viewed.contents (t.after ms).book.storage = (t.after ms).book.marks :=
    hwritten.persisted.contents_eq hu
  have hopen := replays_of_openOver ht hwritten.sound ht'
  rw [hstored] at hopen
  have hlast := hopen.replay hf hr
  exact roomState_congr hlast.chronicle hlast.marks room

/-- A thread, a jump that is answered by the messages around it, a receipt that waits for its
message, and a limited batch: the second tracker is told of the messages alone. -/
theorem replay_restores_a_room :
    let room : RoomId := ⟨"!r"⟩
    let said (id : String) (q : Nat) (content : Content) : Message :=
      ⟨⟨id⟩, room, ⟨"@bot"⟩, q, content, false⟩
    let t : Tracker Shelf := fresh .counting {} ⟨"@me"⟩ ⟨.empty, .empty, .empty⟩
    let ms : List Moment :=
      [.command (.receive room [said "$1" 1 .plain, said "$2" 2 (.threadReply ⟨"$1"⟩)] false),
        .command (.jump room ⟨"$4"⟩ true),
        .command (.receipt room ⟨"@me"⟩ ⟨"$3"⟩ .shared .room),
        .command (.supply 1 [said "$4" 4 .plain, said "$3" 3 .plain]),
        .command (.receive room [said "$9" 9 .plain] true)]
    let s := (t.after ms).book.storage
    let t' : Tracker Shelf := fresh .counting {} ⟨"@me"⟩ ⟨s, MarkerBook.marksOf s.entries, .empty⟩
    let ms' : List Moment :=
      [.command (.receive room [said "$1" 1 .plain, said "$2" 2 (.threadReply ⟨"$1"⟩)] false),
        .surroundings .counting,
        .command (.backfill room [said "$4" 4 .plain, said "$3" 3 .plain] none),
        .command (.receive room [said "$9" 9 .plain] true)]
    (t'.after ms').roomState room = (t.after ms).roomState room ∧
      (((t'.after ms').roomState room).unread, ((t'.after ms').roomState room).incomplete) =
        (1, true) := by
  intro room said t ms s t' ms'
  have ht : (openOver .counting {} ⟨"@me"⟩ Shelf.empty).1 = .ok t := rfl
  have ht' : (openOver .counting {} ⟨"@me"⟩ s).1 = .ok t' := rfl
  refine ⟨replay_restores_rooms trivial ht (fun _ _ => Moment.within_unlimited _) ?_ ?_ ht' ?_ room,
    ?_⟩
  · simp [ms]
  · decide +kernel
  · decide +kernel
  · decide +kernel

end Tracker

end ReadTracking
