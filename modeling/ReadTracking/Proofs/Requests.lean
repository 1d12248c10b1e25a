import ReadTracking.Backing.Shelf
import ReadTracking.Proofs.Expecting

/-!
# Answers that come too late

A jump to a message that is not indexed asks for the messages around it under a number.  The answer
may come late, more than once, out of order or never, and meanwhile the user goes elsewhere.  An
answer counts while its jump waits, and only once.  Any other answer is put aside: it changes
nothing, asks for nothing and tells nobody.
-/

set_option autoImplicit false

namespace ReadTracking

variable {σ : Type}

/-! ## Requests and what ends them -/

def Answer.Accepted (a : Answer σ) : Prop := ∃ actions, a.reply = .ok actions

theorem Answer.accepted_iff_isOk {a : Answer σ} : a.Accepted ↔ a.reply.isOk = true := by
  unfold Accepted
  cases a.reply <;> simp [Except.isOk, Except.toBool]

theorem Answer.isOk_eq_false {a : Answer σ} (h : ¬ a.Accepted) : a.reply.isOk = false :=
  Bool.eq_false_iff.2 (mt accepted_iff_isOk.2 h)

theorem Turn.not_accepted_refused (r : Turn σ) (why : Refusal) : ¬ (r.refused why).Accepted := by
  rintro ⟨actions, h⟩
  cases h

def Action.request? : Action → Option Nat
  | .fetch request _ _ => some request
  | .send _ _ _ | .unsaved _ _ _ => none

def Answer.requests (a : Answer σ) : List Nat := a.actions.filterMap Action.request?

namespace Tracker

def idle (t : Tracker σ) : Answer σ := ⟨t, [], .ok [], false⟩

variable [Backing σ]

def requests (t : Tracker σ) (ms : List Moment) : List Nat :=
  (t.answers ms).flatMap Answer.requests

def Asks (t : Tracker σ) (m : Moment) (a : Awaited) : Prop :=
  m = .command (.jump a.room a.event a.includeThreads) ∧ a.request ∈ (t.meet m).requests

def Ends (t : Tracker σ) (a : Awaited) : Moment → Prop
  | .command (.viewRoom _) | .command .leave => True
  | .command (.viewThread room root) => (t.viewThread room root).Accepted
  | .command (.jump room event includeThreads) => (t.jump room event includeThreads).Accepted
  | .command (.forget room) => room = a.room ∧ (t.forget room).Accepted
  | .command (.supply request _) => request = a.request
  | .command (.markRoomRead _) | .command .closeThread | .command (.receive _ _ _)
  | .command (.backfill _ _ _) | .command (.receipt _ _ _ _ _) | .command (.sendFailed _ _ _)
  | .command (.tick _) | .surroundings _ | .subscribe | .unsubscribe _ => False

def Lasts : Tracker σ → Awaited → List Moment → Prop
  | _, _, [] => True
  | t, a, m :: ms => ¬ t.Ends a m ∧ (t.meet m).tracker.Lasts a ms

def Open (t : Tracker σ) (ms : List Moment) (a : Awaited) : Prop :=
  ∃ pre m post, ms = pre ++ m :: post ∧ (t.after pre).Asks m a ∧
    ((t.after pre).meet m).tracker.Lasts a post

end Tracker

/-! ## Only jumps to messages that are not indexed ask -/

namespace Turn

theorem request?_warnings (v : Visibility) (us : List Update) (a : Advance) :
    (warnings v us a).filterMap Action.request? = [] := by
  cases a with
  | ignored | applied => rfl
  | unsaved why =>
    rw [warnings, List.filterMap_map]
    exact List.filterMap_eq_nil_iff.2 fun _ _ => rfl

theorem request?_release (r : Turn σ) :
    r.release.actions.filterMap Action.request? = r.actions.filterMap Action.request? := by
  have hsends : ((r.tracker.sends.release r.tracker.ambient.elapsed).2.map fun o =>
      Action.send o.slot.scope o.event o.slot.visibility).filterMap Action.request? = [] := by
    rw [List.filterMap_map]
    exact List.filterMap_eq_nil_iff.2 fun _ _ => rfl
  refine List.filterMap_append.trans ?_
  exact (congrArg _ hsends).trans (List.append_nil _)

theorem request?_finish (r : Turn σ) (room : RoomId) :
    (r.report room).release.actions.filterMap Action.request? =
      r.actions.filterMap Action.request? := by
  obtain ⟨reported, notices, h⟩ := r.report_eq room
  rw [request?_release, h]

theorem request?_land [Backing σ] (r : Turn σ) (room : RoomId) (e : Indexed) :
    (r.land room e).actions.filterMap Action.request? =
      r.actions.filterMap Action.request? := by
  have hread : ∀ (r : Turn σ) u, (r.read u).actions.filterMap Action.request? =
      r.actions.filterMap Action.request? := by
    intro r u
    by_cases h : r.tracker.book.covers u.scope u.sequence = true
    · rw [r.read_of_covers h]
    · rw [r.read_of_not_covers h]
      simp only [List.filterMap_append, request?_warnings, List.append_nil]
  unfold land
  exact hread _ _

end Turn

namespace Tracker

variable [Backing σ] {t : Tracker σ} {a : Awaited}

theorem asks_jump_iff {room : RoomId} {event : EventId} {includeThreads : Bool} :
    t.Asks (.command (.jump room event includeThreads)) a ↔
      Turn.barrier t.chronicle event includeThreads = none ∧ t.chronicle.get? event = none ∧
        a = ⟨t.ambient.number.2, room, event, includeThreads⟩ := by
  -- Landing, reporting and sending ask for no messages, so the jump itself asks or nothing does.
  have hrequests : (t.jump room event includeThreads).requests =
      match Turn.barrier t.chronicle event includeThreads, t.chronicle.get? event with
      | none, none => [t.ambient.number.2]
      | _, _ => [] := by
    unfold Answer.requests Answer.actions jump
    cases Turn.barrier t.chronicle event includeThreads with
    | some root => rfl
    | none =>
      cases t.chronicle.get? event with
      | some e => exact (Turn.request?_finish _ room).trans (Turn.request?_land _ room e)
      | none => exact Turn.request?_release _
  obtain ⟨request, room', event', includeThreads'⟩ := a
  unfold Asks
  show _ ∧ request ∈ (t.jump room event includeThreads).requests ↔ _
  rw [hrequests]
  cases Turn.barrier t.chronicle event includeThreads with
  | some root => simp
  | none =>
    cases t.chronicle.get? event with
    | some e => simp
    | none =>
      simp only [List.mem_singleton, true_and]
      constructor
      · rintro ⟨hjump, rfl⟩
        cases hjump
        rfl
      · intro h
        cases h
        exact ⟨rfl, rfl⟩

/-! ## The jump that waits -/

theorem accepted_viewThread {room : RoomId} {root : EventId} :
    (t.viewThread room root).Accepted ↔
      (t.chronicle.rootKnown room root || t.chronicle.hasThread room root) = true := by
  unfold viewThread
  dsimp only
  split
  next hk => exact ⟨fun _ => hk, fun _ => ⟨_, rfl⟩⟩
  next hk =>
    constructor
    · rintro ⟨_, h⟩
      cases h
    · exact fun h => absurd h hk

theorem accepted_jump {room : RoomId} {event : EventId} {includeThreads : Bool} :
    (t.jump room event includeThreads).Accepted ↔
      Turn.barrier t.chronicle event includeThreads = none := by
  unfold jump
  cases Turn.barrier t.chronicle event includeThreads with
  | some root =>
    simp only [reduceCtorEq, iff_false]
    rintro ⟨_, h⟩
    cases h
  | none =>
    simp only [iff_true]
    cases t.chronicle.get? event <;> exact ⟨_, rfl⟩

theorem accepted_forget {room : RoomId} :
    (t.forget room).Accepted ↔ ∃ n, (t.book.forget room).2 = .ok n := by
  unfold forget
  split
  next why h =>
    rw [h]
    constructor
    · rintro ⟨_, h'⟩
      cases h'
    · rintro ⟨_, h'⟩
      cases h'
  next n h =>
    rw [h]
    exact ⟨fun _ => ⟨n, rfl⟩, fun _ => ⟨_, rfl⟩⟩

theorem awaited_iff_of_no_jump {P : Prop} {m : Moment} (h : ∀ room event includeThreads,
    m ≠ .command (.jump room event includeThreads)) (hP : P ↔ t.awaited = some a ∧ ¬ t.Ends a m) :
    P ↔ t.awaited = some a ∧ ¬ t.Ends a m ∨ t.Asks m a := by
  have hno : ¬ t.Asks m a := fun hasks => h _ _ _ hasks.1
  rw [hP, or_iff_left hno]

/-- A jump waits after a moment if it waited before and the moment did not end that, or if the
moment asks for its messages. -/
theorem awaited_meet_iff {m : Moment} : (t.meet m).tracker.awaited = some a ↔
    t.awaited = some a ∧ ¬ t.Ends a m ∨ t.Asks m a := by
  cases m with
  | surroundings | subscribe | unsubscribe =>
    exact awaited_iff_of_no_jump (fun _ _ _ h => by cases h)
        ⟨fun h => ⟨h, id⟩, fun h => h.1⟩
  | command c =>
    show (t.handle c).tracker.awaited = some a ↔ _
    rw [(t.foresees c).awaited]
    cases c with
    | markRoomRead | closeThread | receive | backfill | receipt | sendFailed | tick =>
      exact awaited_iff_of_no_jump (fun _ _ _ h => by cases h)
        ⟨fun h => ⟨h, id⟩, fun h => h.1⟩
    | viewRoom | leave =>
      exact awaited_iff_of_no_jump (fun _ _ _ h => by cases h)
        ⟨fun h => (by cases h), fun h => absurd trivial h.2⟩
    | viewThread room root =>
      refine awaited_iff_of_no_jump (fun _ _ _ h => by cases h) ?_
      simp only [awaitedAfter, Ends, accepted_viewThread]
      split
      next hk => simp [hk]
      next hk => simp [hk]
    | forget room =>
      refine awaited_iff_of_no_jump (fun _ _ _ h => by cases h) ?_
      simp only [awaitedAfter, Ends, accepted_forget]
      split
      next why h => simp [h]
      next n h =>
        simp only [Option.filter_eq_some_iff, h, Except.ok.injEq, exists_eq', and_true,
          bne_iff_ne, ne_eq, eq_comm (a := room)]
    | supply request messages =>
      refine awaited_iff_of_no_jump (fun _ _ _ h => by cases h) ?_
      simp only [awaitedAfter, Ends, Option.filter_eq_some_iff, bne_iff_ne, ne_eq,
        eq_comm (a := request)]
    | jump room event includeThreads =>
      rw [asks_jump_iff]
      simp only [awaitedAfter, Ends, accepted_jump]
      cases hb : Turn.barrier t.chronicle event includeThreads with
      | some root => simp
      | none =>
        cases he : t.chronicle.get? event with
        | some e => simp
        | none => simp [eq_comm]

theorem open_cons {m : Moment} {ms : List Moment} : t.Open (m :: ms) a ↔
    t.Asks m a ∧ (t.meet m).tracker.Lasts a ms ∨ (t.meet m).tracker.Open ms a := by
  constructor
  · rintro ⟨pre, m', post, hms, hasks, hlasts⟩
    cases pre with
    | nil =>
      cases hms
      exact .inl ⟨hasks, hlasts⟩
    | cons m'' pre =>
      cases hms
      exact .inr ⟨pre, m', post, rfl, hasks, hlasts⟩
  · rintro (⟨hasks, hlasts⟩ | ⟨pre, m', post, rfl, hasks, hlasts⟩)
    · exact ⟨[], m, ms, rfl, hasks, hlasts⟩
    · exact ⟨m :: pre, m', post, rfl, hasks, hlasts⟩

/-- A jump waits after a course if it waited before and nothing ended that, or if the course asked
for its messages and nothing ended the wait since. -/
theorem awaited_after_iff {ms : List Moment} : (t.after ms).awaited = some a ↔
    t.awaited = some a ∧ t.Lasts a ms ∨ t.Open ms a := by
  induction ms generalizing t with
  | nil =>
    have hnone : ¬ t.Open [] a := by
      rintro ⟨pre, m, post, h, -⟩
      cases pre <;> cases h
    rw [or_iff_left hnone]
    exact ⟨fun h => ⟨h, trivial⟩, fun h => h.1⟩
  | cons m ms ih =>
    show ((t.meet m).tracker.after ms).awaited = some a ↔ _
    rw [ih, awaited_meet_iff, open_cons, or_and_right, and_assoc, or_assoc]
    rfl

/-! ## Answers -/

theorem supply_eq_idle {request : Nat} (h : ∀ a, t.awaited = some a → a.request ≠ request)
    (messages : List Message) : t.handle (.supply request messages) = t.idle := by
  show t.supply request messages = t.idle
  unfold supply
  split
  next => rfl
  next a ha => exact if_neg (h a ha)

theorem supply_taken (ha : t.awaited = some a) (messages : List Message) :
    (t.handle (.supply a.request messages)).tracker.awaited = none ∧
      (t.handle (.supply a.request messages)).tracker.chronicle =
        (t.chronicle.ingest a.room messages false).1 := by
  have hb := batch?_supply ha messages
  obtain ⟨ws, place, hconduct⟩ := t.conducts (.supply a.request messages)
    fun _ h => by cases h
  constructor
  · rw [(t.foresees _).awaited]
    simp only [awaitedAfter, ha, Option.filter_some, bne_self_eq_false, Bool.false_eq_true,
      if_false]
  · rw [hconduct.grants.chronicle, loaded_eq hb]
    rfl

theorem answers_append (ms ms' : List Moment) :
    t.answers (ms ++ ms') = t.answers ms ++ (t.after ms).answers ms' := by
  induction ms generalizing t with
  | nil => rfl
  | cons m ms ih => exact congrArg (t.meet m :: ·) ih

theorem requests_append (ms ms' : List Moment) :
    t.requests (ms ++ ms') = t.requests ms ++ (t.after ms).requests ms' := by
  unfold requests
  rw [answers_append, List.flatMap_append]

theorem mem_requests_of_open {ms : List Moment} (h : t.Open ms a) : a.request ∈ t.requests ms := by
  obtain ⟨pre, m, post, rfl, ⟨-, hasks⟩, -⟩ := h
  rw [requests_append]
  exact List.mem_append_right _ (List.mem_append_left _ hasks)

/-- While the numbers of requests differ, only the jump that asked under a number waits for it. -/
theorem lasts_of_awaited {pre post : List Moment} {m : Moment} {b : Awaited}
    (hn : (t.requests (pre ++ m :: post)).Nodup) (hasks : (t.after pre).Asks m a)
    (hb : (t.after (pre ++ m :: post)).awaited = some b) (hsame : b.request = a.request) :
    ((t.after pre).meet m).tracker.Lasts a post := by
  have hasked : ((t.after pre).meet m).tracker.awaited = some a :=
    awaited_meet_iff.2 (.inr hasks)
  rw [after_append] at hb
  have hb : (((t.after pre).meet m).tracker.after post).awaited = some b := hb
  rcases awaited_after_iff.1 hb with ⟨hold, hlasts⟩ | hopen
  · rw [hasked] at hold
    cases hold
    exact hlasts
  · -- A later jump would have asked under the same number.
    rw [requests_append] at hn
    have hn : (((t.after pre).meet m).requests ++
        ((t.after pre).meet m).tracker.requests post).Nodup := (List.nodup_append.1 hn).2.1
    exact absurd hsame.symm
      ((List.nodup_append.1 hn).2.2 _ hasks.2 _ (mem_requests_of_open hopen))

theorem supply_idle_or_open (h : t.awaited = none) (ms : List Moment) (request : Nat)
    (messages : List Message) :
    (t.after ms).handle (.supply request messages) = (t.after ms).idle ∨
      ∃ a, a.request = request ∧ t.Open ms a := by
  by_cases hw : ∃ a, a.request = request ∧ (t.after ms).awaited = some a
  · obtain ⟨a, hr, ha⟩ := hw
    rcases awaited_after_iff.1 ha with ⟨hold, -⟩ | hopen
    · cases h.symm.trans hold
    · exact .inr ⟨a, hr, hopen⟩
  · exact .inl (supply_eq_idle (fun a ha hr => hw ⟨a, hr, ha⟩) messages)

theorem supply_idle_of_not_lasts {pre post : List Moment} {m : Moment}
    (hn : (t.requests (pre ++ m :: post)).Nodup) (hasks : (t.after pre).Asks m a)
    (h : ¬ ((t.after pre).meet m).tracker.Lasts a post) (messages : List Message) :
    (t.after (pre ++ m :: post)).handle (.supply a.request messages) =
      (t.after (pre ++ m :: post)).idle := by
  apply supply_eq_idle
  intro b hb hsame
  exact h (lasts_of_awaited hn hasks hb hsame)

theorem not_lasts_of_mem {ms ms' : List Moment} {messages : List Message} :
    ¬ t.Lasts a (ms ++ .command (.supply a.request messages) :: ms') := by
  induction ms generalizing t with
  | nil => exact fun h => h.1 rfl
  | cons m ms ih => exact fun h => ih h.2

/-- As long as no two requests of a course have one number, an answer is taken only if a jump of the
course asked for it and nothing ended the wait since: the user did not go elsewhere, the room was
not forgotten, and no answer came.  Then it is indexed, and the jump waits no more.  Every other
answer is put aside, so that of two answers to one request at most one is taken. -/
theorem stale_answers_put_aside {ambient : Ambient} {policy : Policy} {reader : UserId} {s : σ}
    {t : Tracker σ} (ht : (openOver ambient policy reader s).1 = .ok t) {ms : List Moment}
    (hn : (t.requests ms).Nodup) :
    (∀ request messages, (t.after ms).handle (.supply request messages) = (t.after ms).idle ∨
      ∃ a, a.request = request ∧ t.Open ms a) ∧
    (∀ pre m post a, ms = pre ++ m :: post → (t.after pre).Asks m a → ∀ messages,
      (((t.after pre).meet m).tracker.Lasts a post →
        ((t.after ms).handle (.supply a.request messages)).tracker.awaited = none ∧
        ((t.after ms).handle (.supply a.request messages)).tracker.chronicle =
          ((t.after ms).chronicle.ingest a.room messages false).1 ∧
        (t.after ms).handle (.supply a.request messages) ≠ (t.after ms).idle) ∧
      (¬ ((t.after pre).meet m).tracker.Lasts a post →
        (t.after ms).handle (.supply a.request messages) = (t.after ms).idle)) ∧
    ∀ pre mid post request messages messages',
      ms = pre ++ .command (.supply request messages) :: mid ++
        .command (.supply request messages') :: post →
      (t.after pre).handle (.supply request messages) = (t.after pre).idle ∨
      (t.after (pre ++ .command (.supply request messages) :: mid)).handle
          (.supply request messages') =
        (t.after (pre ++ .command (.supply request messages) :: mid)).idle := by
  have hnone : t.awaited = none := by
    obtain ⟨book, rfl, -⟩ := eq_fresh_of_openOver ht
    rfl
  refine ⟨fun request messages => supply_idle_or_open hnone ms request messages, ?_, ?_⟩
  · rintro pre m post a rfl hasks messages
    refine ⟨fun hlasts => ?_, fun hlasts => supply_idle_of_not_lasts hn hasks hlasts messages⟩
    have hwaits : (t.after (pre ++ m :: post)).awaited = some a := by
      rw [after_append]
      exact awaited_after_iff.2 (.inr (open_cons.2 (.inl ⟨hasks, hlasts⟩)))
    obtain ⟨hend, htaken⟩ := supply_taken hwaits messages
    refine ⟨hend, htaken, fun hidle => ?_⟩
    rw [hidle] at hend
    cases hwaits.symm.trans hend
  · rintro pre mid post request messages messages' rfl
    rcases supply_idle_or_open hnone pre request messages with hidle | ⟨a, rfl, hopen⟩
    · exact .inl hidle
    -- The first answer ended the wait, so the second one is put aside.
    right
    obtain ⟨pre, m, post', rfl, hasks, -⟩ := hopen
    rw [requests_append, List.append_assoc, List.cons_append] at hn
    rw [List.append_assoc, List.cons_append]
    exact supply_idle_of_not_lasts (List.nodup_append.1 hn).1 hasks not_lasts_of_mem messages'

/-- The user jumps, goes elsewhere and jumps again; the answer to the first jump comes late, the one
to the second in time, and then once more. -/
theorem stale_answers_put_aside_of_two_jumps :
    let room : RoomId := ⟨"!r"⟩
    let around : List Message :=
      [⟨⟨"$1"⟩, room, ⟨"@bot"⟩, 1, .plain, false⟩, ⟨⟨"$2"⟩, room, ⟨"@bot"⟩, 2, .plain, false⟩]
    let t : Tracker Shelf := fresh .counting {} ⟨"@me"⟩ ⟨.empty, .empty, .empty⟩
    let u := t.after [.command (.jump room ⟨"$1"⟩ false), .command (.viewRoom room),
      .command (.jump room ⟨"$2"⟩ true), .subscribe, .command (.tick 7)]
    let u' := t.after [.command (.jump room ⟨"$1"⟩ false), .command (.viewRoom room),
      .command (.jump room ⟨"$2"⟩ true), .subscribe, .command (.tick 7),
      .command (.supply 2 around)]
    u.handle (.supply 1 around) = u.idle ∧ u.handle (.supply 2 around) ≠ u.idle ∧
      u'.handle (.supply 2 around) = u'.idle ∧ u'.chronicle.size = 2 := by
  intro room around t u u'
  have ht : (openOver .counting {} ⟨"@me"⟩ Shelf.empty).1 = .ok t := rfl
  have hn : (t.requests [.command (.jump room ⟨"$1"⟩ false), .command (.viewRoom room),
      .command (.jump room ⟨"$2"⟩ true), .subscribe, .command (.tick 7),
      .command (.supply 2 around)]).Nodup := by decide +kernel
  have hn' : (t.requests [.command (.jump room ⟨"$1"⟩ false), .command (.viewRoom room),
      .command (.jump room ⟨"$2"⟩ true), .subscribe, .command (.tick 7)]).Nodup := by
    decide +kernel
  have hfirst : t.Asks (.command (.jump room ⟨"$1"⟩ false)) ⟨1, room, ⟨"$1"⟩, false⟩ :=
    ⟨rfl, by decide +kernel⟩
  have hsecond : (t.after [.command (.jump room ⟨"$1"⟩ false), .command (.viewRoom room)]).Asks
      (.command (.jump room ⟨"$2"⟩ true)) ⟨2, room, ⟨"$2"⟩, true⟩ := ⟨rfl, by decide +kernel⟩
  obtain ⟨-, hanswer, -⟩ := stale_answers_put_aside ht hn'
  obtain ⟨-, hagain, -⟩ := stale_answers_put_aside ht hn
  refine ⟨?_, ?_, ?_, by decide +kernel⟩
  · exact (hanswer [] _ _ _ rfl hfirst around).2 fun hlasts => hlasts.1 trivial
  · exact ((hanswer [_, _] _ _ _ rfl hsecond around).1 ⟨id, id, trivial⟩).2.2
  · exact (hagain [_, _] _ _ _ rfl hsecond around).2 fun hlasts => hlasts.2.2.1 rfl

end Tracker

end ReadTracking
