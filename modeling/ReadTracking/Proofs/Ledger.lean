import ReadTracking.Proofs.Course
import ReadTracking.Proofs.Reading

/-!
# Where the receipts for what was read go

What a user reads on this device is to reach the server.  For every scope the newest such
reading either still waits to be sent, or the action that sends it was handed out, with one
exception: a jump whose message turns out to be in a thread is refused after the queue was
emptied, and what was due goes with the refusal.
-/

set_option autoImplicit false

namespace ReadTracking.Tracker

variable {σ : Type} [Backing σ]

/-- The book when a moment begins to read on this device: the receipts that it brings, also with
its messages, have been applied.  Where a moment never reads on this device, nothing is left. -/
def readingFrom (t : Tracker σ) : Moment → MarkerBook σ
  | .command (.supply request messages) =>
    match t.awaited with
    | none => t.book
    | some a =>
      if a.request = request then
        let (chronicle, placed) := t.chronicle.ingest a.room messages false
        let r : Turn σ := { tracker := { t with chronicle, awaited := none } }
        (r.afterPlacing placed).tracker.book
      else t.book
  | .command (.receive room messages limited) =>
    let (chronicle, placed) := t.chronicle.ingest room messages limited
    let r : Turn σ := { tracker := { t with chronicle } }
    (r.afterPlacing placed).tracker.book
  | .command (.backfill room messages filled) => (t.backfill room messages filled).tracker.book
  | .command (.receipt room user event v reach) => (t.receipt room user event v reach).tracker.book
  | .command _ | .surroundings _ | .subscribe | .unsubscribe _ => t.book

/-- The marker to which a moment read a scope on this device, if it did. -/
def newlyRead (t : Tracker σ) (m : Moment) (s : Scope) : Option Mark :=
  let mark := (t.meet m).tracker.book.mark? s .personal
  if (t.readingFrom m).mark? s .personal = mark then none else mark

def lastRead : Tracker σ → List Moment → Scope → Option Mark
  | _, [], _ => none
  | t, m :: ms, s => ((t.meet m).tracker.lastRead ms s).orElse fun _ => t.newlyRead m s

def RefusesJump (t : Tracker σ) (m : Moment) : Prop :=
  ∃ request messages why, m = .command (.supply request messages) ∧ (t.meet m).reply = .error why

inductive Delivery (t : Tracker σ) (m : Moment) (sends : SendQueue) : Prop
  | kept (accepts : ¬ t.RefusesJump m) (after : (t.meet m).tracker.sends = sends)
  | handed (accepts : ¬ t.RefusesJump m) (now : Nat)
      (after : (t.meet m).tracker.sends = (sends.release now).1)
      (out : ∀ o ∈ (sends.release now).2,
        .send o.slot.scope o.event o.slot.visibility ∈ (t.meet m).actions)
  | dropped (refuses : t.RefusesJump m) (before : sends = t.sends)
      (after : (t.meet m).tracker.sends = (sends.release t.ambient.elapsed).1)

structure Accounts (t : Tracker σ) (m : Moment) (t₁ : Tracker σ) : Prop where
  reading : ({ t with book := t.readingFrom m } : Tracker σ).Reading t₁
  marks : (t.meet m).tracker.book.marks = t₁.book.marks
  policy : (t.meet m).tracker.policy = t₁.policy
  delivery : t.Delivery m t₁.sends

/-! ## Every moment accounts for what it reads -/

section

variable {t : Tracker σ} {m : Moment} {r : Turn σ}

theorem not_refusesJump {c : Command} (h : ∀ request messages, c ≠ .supply request messages) :
    ¬ t.RefusesJump (.command c) := by
  rintro ⟨request, messages, why, he, -⟩
  cases he
  exact h request messages rfl

theorem accounts_of_done {now : Nat} (ha : t.meet m = (r.releaseAt now).done)
    (h : ({ t with book := t.readingFrom m } : Tracker σ).Reading r.tracker)
    (hm : ¬ t.RefusesJump m) : t.Accounts m r.tracker where
  reading := h
  marks := by rw [ha]; rfl
  policy := by rw [ha]; rfl
  delivery := by
    refine .handed hm now (by rw [ha]; rfl) fun o ho => ?_
    rw [ha]
    show _ ∈ r.actions ++ _
    exact List.mem_append_right _ (List.mem_map_of_mem (f := fun o : Outgoing =>
      Action.send o.slot.scope o.event o.slot.visibility) ho)

theorem accounts_of_same (h : t.SendsCovered) (hb : t.readingFrom m = t.book)
    (hmarks : (t.meet m).tracker.book.marks = t.book.marks)
    (hp : (t.meet m).tracker.policy = t.policy) (hs : (t.meet m).tracker.sends = t.sends)
    (hm : ¬ t.RefusesJump m) : t.Accounts m t where
  reading := by rw [hb]; exact .refl h
  marks := hmarks
  policy := hp
  delivery := .kept hm hs

omit [Backing σ] in
/-- Reading on this device begins where receipts have been applied. -/
theorem reading_of_aside {r₀ : Turn σ} (h : t.SendsCovered) (hr : r₀.Aside r)
    (hb : r₀.tracker.book = t.book) (hs : r₀.tracker.sends = t.sends)
    (hp : r₀.tracker.policy = t.policy) :
    ({ t with book := r.tracker.book } : Tracker σ).Reading r.tracker := by
  have hc : ({ t with book := r.tracker.book } : Tracker σ).SendsCovered := by
    intro slot q hq
    apply hr.covers
    rw [hb]
    exact h slot q hq
  exact (Reading.refl hc).congr (hr.policy.trans hp) rfl (hr.sends.trans hs)

end

theorem accounts_tick {t : Tracker σ} (h : t.SendsCovered) (now : Nat) :
    t.Accounts (.command (.tick now)) t where
  reading := .refl h
  marks := by
    show (t.tick now).tracker.book.marks = _
    rw [tick_eq]
    exact t.book.marks_retried
  policy := by
    show (t.tick now).tracker.policy = _
    rw [tick_eq]
    rfl
  delivery := by
    have hm := t.not_refusesJump (c := .tick now) nofun
    refine .handed hm now ?_ fun o ho => ?_
    · show (t.tick now).tracker.sends = _
      rw [tick_eq]
      rfl
    · show _ ∈ (t.tick now).actions
      rw [tick_eq]
      exact List.mem_append_right [] (List.mem_map_of_mem (f := fun o : Outgoing =>
        Action.send o.slot.scope o.event o.slot.visibility) ho)

theorem accounts_supply_aside {t : Tracker σ} (h : t.SendsCovered) {request : Nat}
    {messages : List Message} (ha : ∀ a, t.awaited = some a → a.request ≠ request) :
    t.Accounts (.command (.supply request messages)) t := by
  have e : t.supply request messages = ({ tracker := t } : Turn σ).done := by
    unfold supply
    cases hw : t.awaited with
    | none => rfl
    | some a => simp [ha a hw]
  have hb : t.readingFrom (.command (.supply request messages)) = t.book := by
    unfold readingFrom
    cases hw : t.awaited with
    | none => rfl
    | some a => simp [ha a hw]
  have hm : t.meet (.command (.supply request messages)) = ({ tracker := t } : Turn σ).done := e
  refine accounts_of_same h hb ?_ ?_ ?_ ?_
  · rw [hm]; rfl
  · rw [hm]; rfl
  · rw [hm]; rfl
  · rintro ⟨_, _, why, -, hw⟩
    rw [hm] at hw
    cases hw

theorem accounts_supply {t : Tracker σ} (h : t.SendsCovered) (request : Nat)
    (messages : List Message) : ∃ t₁, t.Accounts (.command (.supply request messages)) t₁ := by
  by_cases hw : ∃ a, t.awaited = some a ∧ a.request = request
  case neg =>
    refine ⟨t, accounts_supply_aside h fun a ha hr => hw ⟨a, ha, hr⟩⟩
  obtain ⟨a, ha, hr⟩ := hw
  let m : Moment := .command (.supply request messages)
  let chronicle := (t.chronicle.ingest a.room messages false).1
  let r₀ : Turn σ := { tracker := { t with chronicle, awaited := none } }
  let r := r₀.afterPlacing (t.chronicle.ingest a.room messages false).2
  have haside : r₀.Aside r := r₀.aside_afterPlacing _
  have hread : ({ t with book := t.readingFrom m } : Tracker σ).Reading r.tracker := by
    have hb : t.readingFrom m = r.tracker.book := by
      simp only [m, readingFrom, ha, hr, if_true]
      rfl
    rw [hb]
    exact reading_of_aside h haside rfl rfl rfl
  cases hbar : Turn.barrier chronicle a.event a.includeThreads with
  | some root =>
    have e : t.meet m = ((r.report a.room).release).refused (.inThread a.event root) := by
      simp only [m, meet, handle, supply, ha, hr, if_true]
      rw [show Turn.barrier _ a.event a.includeThreads = some root from hbar]
    obtain ⟨reported, notices, he⟩ := r.report_eq a.room
    refine ⟨(r.report a.room).tracker, hread.report a.room, by rw [e]; rfl, by rw [e]; rfl, ?_⟩
    refine .dropped ⟨request, messages, .inThread a.event root, rfl, by rw [e]; rfl⟩ ?_ ?_
    · rw [he]
      exact haside.sends
    · have hnow : (r.report a.room).tracker.ambient = t.ambient := by
        rw [he]
        exact haside.ambient
      rw [e, ← hnow]
      rfl
  | none =>
    have accepts : ∀ r₁ : Turn σ, t.meet m = (r₁.release).done → ¬ t.RefusesJump m := by
      rintro r₁ h₁ ⟨_, _, why, -, hw⟩
      rw [h₁] at hw
      cases hw
    cases hget : chronicle.get? a.event with
    | none =>
      have e : t.meet m = ((r.report a.room).release).done := by
        simp only [m, meet, handle, supply, ha, hr, if_true]
        rw [show Turn.barrier _ a.event a.includeThreads = none from hbar,
          show Chronicle.get? _ a.event = none from hget]
      exact ⟨_, accounts_of_done e (hread.report a.room) (accepts _ e)⟩
    | some i =>
      have e : t.meet m = (((r.land a.room i).report a.room).release).done := by
        simp only [m, meet, handle, supply, ha, hr, if_true]
        rw [show Turn.barrier _ a.event a.includeThreads = none from hbar,
          show Chronicle.get? _ a.event = some i from hget]
      exact ⟨_, accounts_of_done e ((hread.land a.room i).report a.room) (accepts _ e)⟩

theorem accounts_viewThread {t : Tracker σ} (h : t.SendsCovered) (room : RoomId)
    (root : EventId) : ∃ t₁, t.Accounts (.command (.viewThread room root)) t₁ := by
  have hn := t.not_refusesJump (c := .viewThread room root) nofun
  let r : Turn σ :=
    { tracker := { t with awaited := none, focus := some ⟨room, some root, true⟩ } }
  have hread : t.Reading (r.readToEnd (.ofThread room root)).tracker :=
    Reading.readToEnd ((Reading.refl h).congr rfl rfl rfl) _
  by_cases hk : (t.chronicle.rootKnown room root || t.chronicle.hasThread room root) = true
  case neg =>
    have e : t.meet (.command (.viewThread room root)) =
        ({ tracker := t } : Turn σ).refused (.unknownThread room root) := by
      simp only [meet, handle, viewThread, hk]
      rfl
    exact ⟨t, accounts_of_same h rfl (by rw [e]; rfl) (by rw [e]; rfl) (by rw [e]; rfl) hn⟩
  have e : ∃ r₁ : Turn σ, t.Reading r₁.tracker ∧
      t.meet (.command (.viewThread room root)) = ((r₁.report room).release).done := by
    simp only [meet, handle, viewThread, hk, if_true]
    split
    · exact ⟨_, hread.read _, rfl⟩
    · exact ⟨_, hread, rfl⟩
  obtain ⟨r₁, h₁, e⟩ := e
  exact ⟨_, accounts_of_done e (h₁.report room) hn⟩

theorem accounts_jump {t : Tracker σ} (h : t.SendsCovered) (room : RoomId) (event : EventId)
    (includeThreads : Bool) :
    ∃ t₁, t.Accounts (.command (.jump room event includeThreads)) t₁ := by
  let m : Moment := .command (.jump room event includeThreads)
  have hn := t.not_refusesJump (c := .jump room event includeThreads) nofun
  cases hbar : Turn.barrier t.chronicle event includeThreads with
  | some root =>
    have e : t.meet m = ({ tracker := t } : Turn σ).refused (.inThread event root) := by
      simp only [m, meet, handle, jump, hbar]
    exact ⟨t, accounts_of_same h rfl (by rw [e]; rfl) (by rw [e]; rfl) (by rw [e]; rfl) hn⟩
  | none =>
    have e : ∃ r : Turn σ, t.Reading r.tracker ∧ t.meet m = r.release.done := by
      simp only [m, meet, handle, jump, hbar]
      split
      · exact ⟨_, .report (.land ((Reading.refl h).congr rfl rfl rfl) _ _) room, rfl⟩
      · exact ⟨_, (Reading.refl h).congr rfl rfl rfl, rfl⟩
    obtain ⟨r, hr, e⟩ := e
    exact ⟨_, accounts_of_done e hr hn⟩

theorem accounts_receipt {t : Tracker σ} (h : t.SendsCovered) (room : RoomId) (user : UserId)
    (event : EventId) (v : Visibility) (reach : Reach) :
    ∃ t₁, t.Accounts (.command (.receipt room user event v reach)) t₁ := by
  let m : Moment := .command (.receipt room user event v reach)
  have hn := t.not_refusesJump (c := .receipt room user event v reach) nofun
  by_cases hu : user = t.reader
  case neg =>
    have e : t.receipt room user event v reach = ({ tracker := t } : Turn σ).done := by
      simp only [receipt, hu, if_false]
    have e' : t.meet m = ({ tracker := t } : Turn σ).done := e
    refine ⟨t, accounts_of_same h ?_ (by rw [e']; rfl) (by rw [e']; rfl) (by rw [e']; rfl) hn⟩
    show (t.receipt room user event v reach).tracker.book = t.book
    rw [e]
    rfl
  have e : ∃ r : Turn σ, ({ tracker := t } : Turn σ).Aside r ∧
      ∃ room', t.receipt room user event v reach = r.release.done ∨
        t.receipt room user event v reach = ((r.report room').release).done := by
    simp only [receipt, hu, if_true]
    split
    · exact ⟨_, Turn.aside_applyReceipt _ _ v reach, _, .inr rfl⟩
    · exact ⟨_, Turn.aside_hold _ room event v reach, room, .inl rfl⟩
  obtain ⟨r, hr, room', e⟩ := e
  have hread := reading_of_aside h hr rfl rfl rfl
  have hb : t.readingFrom m = r.tracker.book := by
    show (t.receipt room user event v reach).tracker.book = r.tracker.book
    rcases e with e | e
    · rw [e]; rfl
    · obtain ⟨reported, notices, he⟩ := r.report_eq room'
      rw [e, he]; rfl
  rw [← hb] at hread
  rcases e with e | e
  · exact ⟨_, accounts_of_done e hread hn⟩
  · exact ⟨_, accounts_of_done e (hread.report room') hn⟩

/-- Every moment but the forgetting of a room accounts for what it reads. -/
theorem accounts {t : Tracker σ} (h : t.SendsCovered) (m : Moment)
    (hm : ∀ room, m ≠ .command (.forget room)) : ∃ t₁, t.Accounts m t₁ := by
  cases m with
  | surroundings ambient =>
    exact ⟨t, accounts_of_same h rfl rfl rfl rfl (by rintro ⟨_, _, _, he, -⟩; cases he)⟩
  | subscribe =>
    exact ⟨t, accounts_of_same h rfl rfl rfl rfl (by rintro ⟨_, _, _, he, -⟩; cases he)⟩
  | unsubscribe listener =>
    exact ⟨t, accounts_of_same h rfl rfl rfl rfl (by rintro ⟨_, _, _, he, -⟩; cases he)⟩
  | command c =>
    have looks : ∀ (focus : Option Focus) (awaited : Option Awaited),
        t.Reading { t with focus, awaited } := fun _ _ => (Reading.refl h).congr rfl rfl rfl
    cases c with
    | supply request messages => exact accounts_supply h request messages
    | forget room => exact absurd rfl (hm room)
    | tick now => exact ⟨t, accounts_tick h now⟩
    | sendFailed scope event reason =>
      exact ⟨t, accounts_of_same h rfl rfl rfl rfl (not_refusesJump nofun)⟩
    | closeThread =>
      exact ⟨_, accounts_of_done rfl (looks _ _) (not_refusesJump nofun)⟩
    | leave =>
      exact ⟨_, accounts_of_done rfl (looks _ _) (not_refusesJump nofun)⟩
    | markRoomRead room =>
      refine ⟨_, accounts_of_done rfl (.report ?_ room) (not_refusesJump nofun)⟩
      exact Reading.readAll_unreadEnds (r := { tracker := t }) (.refl h) room
    | viewRoom room =>
      refine ⟨_, accounts_of_done rfl (.report (.readToEnd ?_ _) room) (not_refusesJump nofun)⟩
      exact looks _ _
    | viewThread room root => exact accounts_viewThread h room root
    | jump room event includeThreads => exact accounts_jump h room event includeThreads
    | receipt room user event v reach => exact accounts_receipt h room user event v reach
    | receive room messages limited =>
      refine ⟨_, accounts_of_done rfl (.report (.followLive ?_ room _ limited) room)
        (not_refusesJump nofun)⟩
      exact reading_of_aside h (Turn.aside_afterPlacing _ _) rfl rfl rfl
    | backfill room messages filled =>
      obtain ⟨chronicle, e⟩ : ∃ chronicle, t.backfill room messages filled =
          ((((({ tracker := { t with chronicle } } : Turn σ).afterPlacing
            (t.chronicle.ingest room messages false).2).report room).release).done) :=
        ⟨_, rfl⟩
      have haside := ({ tracker := { t with chronicle } } : Turn σ).aside_afterPlacing
        (t.chronicle.ingest room messages false).2
      generalize ({ tracker := { t with chronicle } } : Turn σ).afterPlacing
        (t.chronicle.ingest room messages false).2 = r at e haside
      have hb : t.readingFrom (.command (.backfill room messages filled)) = r.tracker.book := by
        obtain ⟨reported, notices, he⟩ := r.report_eq room
        show (t.backfill room messages filled).tracker.book = _
        rw [e, he]
        rfl
      refine ⟨_, accounts_of_done e (.report ?_ room) (not_refusesJump nofun)⟩
      rw [hb]
      exact reading_of_aside h haside rfl rfl rfl

end ReadTracking.Tracker
