import ReadTracking.Backing.Shelf
import ReadTracking.Proofs.Ledger

/-!
# No receipt is lost but with a refused jump

For every scope the newest reading on this device waits to be sent, or the action that sends it
was handed out, or it was due when a jump was refused.  The exception is real: a send that waits
is lost in a moment exactly if that moment refuses a jump while the send is due.
-/

set_option autoImplicit false

namespace ReadTracking

variable {σ : Type}

def Tracker.Waits (t : Tracker σ) (slot : Slot) (mark : Mark) : Prop :=
  ∃ since, t.sends.waiting? slot = some ⟨mark.event, mark.sequence, since⟩

def Answer.Sends (a : Answer σ) (slot : Slot) (event : EventId) : Prop :=
  .send slot.scope event slot.visibility ∈ a.actions

instance (a : Answer σ) (slot : Slot) (event : EventId) : Decidable (a.Sends slot event) :=
  inferInstanceAs (Decidable (_ ∈ a.actions))

namespace Tracker

variable [Backing σ]

/-- In a course the receipt for a marker is due when a jump is refused. -/
def DroppedIn (t : Tracker σ) (ms : List Moment) (slot : Slot) (mark : Mark) : Prop :=
  ∃ ms₀ m ms₁ since, ms = ms₀ ++ m :: ms₁ ∧ (t.after ms₀).RefusesJump m ∧
    (t.after ms₀).sends.waiting? slot = some ⟨mark.event, mark.sequence, since⟩ ∧
    (t.after ms₀).sends.isDue (t.after ms₀).ambient.elapsed
      ⟨mark.event, mark.sequence, since⟩ = true

inductive Fate (t : Tracker σ) (ms : List Moment) (slot : Slot) (mark : Mark) : Prop
  | waits (h : (t.after ms).Waits slot mark)
  | sent (a : Answer σ) (ha : a ∈ t.answers ms) (h : a.Sends slot mark.event)
  | dropped (h : t.DroppedIn ms slot mark)

theorem Fate.cons {t : Tracker σ} {m : Moment} {ms : List Moment} {slot : Slot} {mark : Mark}
    (h : (t.meet m).tracker.Fate ms slot mark) : t.Fate (m :: ms) slot mark := by
  cases h with
  | waits h => exact .waits h
  | sent a ha h => exact .sent a (List.mem_cons_of_mem _ ha) h
  | dropped h =>
    obtain ⟨ms₀, m', ms₁, since, rfl, h⟩ := h
    exact .dropped ⟨m :: ms₀, m', ms₁, since, rfl, h⟩

theorem not_sends_of_refusesJump {t : Tracker σ} {m : Moment} (h : t.RefusesJump m) (slot : Slot)
    (event : EventId) : ¬ (t.meet m).Sends slot event := by
  obtain ⟨_, _, why, -, hr⟩ := h
  simp [Answer.Sends, Answer.actions, hr, Except.toOption]

/-- A send that waits when the reading of a moment is done waits on, is handed out, or was due
before a refused jump. -/
theorem Delivery.of_waiting {t : Tracker σ} {m : Moment} {sends : SendQueue}
    (d : t.Delivery m sends) {slot : Slot} {q : Queued} (hq : sends.waiting? slot = some q) :
    (t.meet m).tracker.sends.waiting? slot = some q ∨
      (¬ t.RefusesJump m ∧ (t.meet m).Sends slot q.event) ∨
      (t.RefusesJump m ∧ t.sends.waiting? slot = some q ∧
        t.sends.isDue t.ambient.elapsed q = true) := by
  cases d with
  | kept accepts after =>
    left
    rw [after, hq]
  | handed accepts now after out =>
    cases hd : sends.isDue now q with
    | true =>
      right; left
      exact ⟨accepts, out ⟨slot, q.event⟩ (SendQueue.mem_release _ |>.2 ⟨q, hq, hd, rfl⟩)⟩
    | false =>
      left
      rw [after, SendQueue.waiting?_release, hq]
      simp [hd]
  | dropped refuses before after =>
    subst before
    cases hd : t.sends.isDue t.ambient.elapsed q with
    | true => exact .inr (.inr ⟨refuses, hq, rfl⟩)
    | false =>
      left
      rw [after, SendQueue.waiting?_release, hq]
      simp [hd]

theorem Delivery.fate {t : Tracker σ} {m : Moment} {ms : List Moment} {sends : SendQueue}
    (d : t.Delivery m sends) {slot : Slot} {mark : Mark} {since : Nat}
    (hq : sends.waiting? slot = some ⟨mark.event, mark.sequence, since⟩)
    (rest : (t.meet m).tracker.Waits slot mark → (t.meet m).tracker.Fate ms slot mark) :
    t.Fate (m :: ms) slot mark := by
  rcases d.of_waiting hq with hw | ⟨-, hs⟩ | ⟨hr, hw, hd⟩
  · exact (rest ⟨since, hw⟩).cons
  · exact .sent _ List.mem_cons_self hs
  · exact .dropped ⟨[], m, ms, since, rfl, hr, hw, hd⟩

/-! ## Courses -/

section

variable {t : Tracker σ}

theorem Accounts.covered {m : Moment} {t₁ : Tracker σ} (h : t.Accounts m t₁) :
    (t.meet m).tracker.SendsCovered := by
  intro slot q hq
  rw [MarkerBook.covers_congr h.marks]
  refine h.reading.covered slot q ?_
  cases h.delivery with
  | kept _ after => rwa [after] at hq
  | handed _ now after _ | dropped _ _ after =>
    rw [after, SendQueue.waiting?_release, Option.filter_eq_some_iff] at hq
    exact hq.1

theorem Accounts.sendSlot {m : Moment} {t₁ : Tracker σ} (h : t.Accounts m t₁) (s : Scope) :
    (t.meet m).tracker.sendSlot s = t.sendSlot s := by
  simp only [Tracker.sendSlot, Tracker.sendVisibility, h.policy, h.reading.policy]

theorem Accounts.waiting?_of_not_read {m : Moment} {t₁ : Tracker σ} (h : t.Accounts m t₁)
    {s : Scope} (hn : t.newlyRead m s = none) :
    t₁.sends.waiting? (t.sendSlot s) = t.sends.waiting? (t.sendSlot s) := by
  refine h.reading.stays s ?_
  rw [← MarkerBook.mark?_congr h.marks]
  simp only [newlyRead] at hn
  split at hn
  next e => exact e.symm
  next =>
    have hb := h.reading.remains s (by rw [← MarkerBook.mark?_congr h.marks]; exact hn)
    exact hn.trans hb.symm

theorem Accounts.waiting?_of_read {m : Moment} {t₁ : Tracker σ} (h : t.Accounts m t₁)
    {s : Scope} {mark : Mark} (hn : t.newlyRead m s = some mark) :
    ∃ since, t₁.sends.waiting? (t.sendSlot s) = some ⟨mark.event, mark.sequence, since⟩ := by
  simp only [newlyRead] at hn
  split at hn
  next => cases hn
  next e =>
    refine h.reading.moves s mark ?_ ?_
    · rw [← MarkerBook.mark?_congr h.marks]
      exact hn
    · rw [← hn]
      exact e

theorem lastRead_cons_eq_none {m : Moment} {ms : List Moment} {s : Scope}
    (h : t.lastRead (m :: ms) s = none) :
    (t.meet m).tracker.lastRead ms s = none ∧ t.newlyRead m s = none := by
  simp only [lastRead] at h
  cases hl : (t.meet m).tracker.lastRead ms s with
  | none =>
    rw [hl] at h
    exact ⟨rfl, h⟩
  | some mark =>
    rw [hl] at h
    cases h

/-- A receipt that waits, and whose scope is not read again, meets its fate. -/
theorem fate_of_waits {ms : List Moment} (h : t.SendsCovered)
    (hms : ∀ room, .command (.forget room) ∉ ms) {s : Scope} {mark : Mark}
    (hr : t.lastRead ms s = none) (hw : t.Waits (t.sendSlot s) mark) :
    t.Fate ms (t.sendSlot s) mark := by
  induction ms generalizing t with
  | nil => exact .waits hw
  | cons m ms ih =>
    obtain ⟨t₁, ha⟩ := t.accounts h m fun room e => hms room (e ▸ List.mem_cons_self)
    obtain ⟨hl, hn⟩ := lastRead_cons_eq_none hr
    obtain ⟨since, hw⟩ := hw
    refine ha.delivery.fate ((ha.waiting?_of_not_read hn).trans hw) fun hw' => ?_
    rw [← ha.sendSlot] at hw' ⊢
    exact ih ha.covered (fun room he => hms room (List.mem_cons_of_mem _ he)) hl hw'

theorem fate_of_lastRead {ms : List Moment} (h : t.SendsCovered)
    (hms : ∀ room, .command (.forget room) ∉ ms) {s : Scope} {mark : Mark}
    (hr : t.lastRead ms s = some mark) : t.Fate ms (t.sendSlot s) mark := by
  induction ms generalizing t with
  | nil => cases hr
  | cons m ms ih =>
    obtain ⟨t₁, ha⟩ := t.accounts h m fun room e => hms room (e ▸ List.mem_cons_self)
    have hms' : ∀ room, .command (.forget room) ∉ ms :=
      fun room he => hms room (List.mem_cons_of_mem _ he)
    simp only [lastRead] at hr
    cases hl : (t.meet m).tracker.lastRead ms s with
    | some mark' =>
      rw [hl] at hr
      cases hr
      have := ih ha.covered hms' hl
      rw [ha.sendSlot] at this
      exact this.cons
    | none =>
      rw [hl] at hr
      obtain ⟨since, hw⟩ := ha.waiting?_of_read hr
      refine ha.delivery.fate hw fun hw' => ?_
      rw [← ha.sendSlot] at hw' ⊢
      exact fate_of_waits ha.covered hms' hl hw'

theorem sendsCovered_after {ms : List Moment} (h : t.SendsCovered)
    (hms : ∀ room, .command (.forget room) ∉ ms) : (t.after ms).SendsCovered := by
  refine after_keeps h fun m hm u hu => ?_
  obtain ⟨t₁, ha⟩ := u.accounts hu m fun room e => hms room (e ▸ hm)
  exact ha.covered

/-- A send is lost in a moment exactly if the moment refuses a jump while the send is due. -/
theorem lost_iff_refusesJump (h : t.SendsCovered) {m : Moment}
    (hm : ∀ room, m ≠ .command (.forget room)) {slot : Slot} {q : Queued}
    (hq : t.sends.waiting? slot = some q) :
    ((∀ q', (t.meet m).tracker.sends.waiting? slot = some q' → q'.sequence < q.sequence) ∧
        ∀ event, ¬ (t.meet m).Sends slot event) ↔
      t.RefusesJump m ∧ t.sends.isDue t.ambient.elapsed q = true := by
  obtain ⟨t₁, ha⟩ := t.accounts h m hm
  obtain ⟨q', hq', -, hle⟩ := ha.reading.keeps slot q hq
  constructor
  · rintro ⟨hw, hs⟩
    rcases ha.delivery.of_waiting hq' with hw' | ⟨-, hs'⟩ | ⟨hr, hw', hd⟩
    · have := hw q' hw'
      omega
    · exact absurd hs' (hs q'.event)
    · cases hq.symm.trans hw'
      exact ⟨hr, hd⟩
  · rintro ⟨hr, hd⟩
    refine ⟨fun q₁ h₁ => ?_, not_sends_of_refusesJump hr slot⟩
    cases ha.delivery with
    | kept accepts => exact absurd hr accepts
    | handed accepts => exact absurd hr accepts
    | dropped _ before after =>
      rw [after, before, SendQueue.waiting?_release, hq, Option.filter_some, hd] at h₁
      cases h₁

end

theorem sendsCovered_of_openOver {ambient : Ambient} {policy : Policy} {reader : UserId} {s : σ}
    {t : Tracker σ} (ht : (openOver ambient policy reader s).1 = .ok t) : t.SendsCovered := by
  intro slot q hq
  have hs : t.sends = .empty policy.debounce := by
    simp only [openOver] at ht
    split at ht
    · cases ht
      rfl
    · cases ht
  rw [hs] at hq
  cases hq

/-- In every course without forgetting, the newest reading of a scope on this device waits to be
sent, or it was handed out, or it was due when a jump was refused; and a send is lost in a moment
only in the last way, and then always. -/
theorem receipts_lost_only_with_refused_jumps {ambient : Ambient} {policy : Policy}
    {reader : UserId} {s : σ} {t : Tracker σ}
    (ht : (openOver ambient policy reader s).1 = .ok t) {ms : List Moment}
    (hms : ∀ room, .command (.forget room) ∉ ms) :
    (∀ s mark, t.lastRead ms s = some mark → t.Fate ms (t.sendSlot s) mark) ∧
    ∀ m, (∀ room, m ≠ .command (.forget room)) → ∀ slot q,
      (t.after ms).sends.waiting? slot = some q →
      (((∀ q', ((t.after ms).meet m).tracker.sends.waiting? slot = some q' →
            q'.sequence < q.sequence) ∧
          ∀ event, ¬ ((t.after ms).meet m).Sends slot event) ↔
        (t.after ms).RefusesJump m ∧
          (t.after ms).sends.isDue (t.after ms).ambient.elapsed q = true) := by
  have h := sendsCovered_of_openOver ht
  refine ⟨fun s mark hr => fate_of_lastRead h hms hr, fun m hm slot q hq => ?_⟩
  exact lost_iff_refusesJump (sendsCovered_after h hms) hm hq

section

/-- A room is read while a receipt has to wait for half a second.  A jump asks for a message; a
second later it comes, in a thread that the jump excludes. -/
def refusedJump : List Moment :=
  let room : RoomId := ⟨"!r"⟩
  [.command (.receive room [⟨⟨"$1"⟩, room, ⟨"@bot"⟩, 1, .plain, false⟩] false),
    .command (.viewRoom room),
    .command (.jump room ⟨"$2"⟩ false),
    .surroundings { Ambient.counting with elapsed := 1000000000 },
    .command (.supply 1 [⟨⟨"$2"⟩, room, ⟨"@bot"⟩, 2, .threadReply ⟨"$1"⟩, false⟩])]

def patient : Tracker Shelf :=
  fresh .counting { debounce := 500000000 } ⟨"@me"⟩ ⟨.empty, .empty, .empty⟩

theorem receipts_lost_only_with_refused_jumps_there :
    patient.Fate refusedJump (patient.sendSlot (.ofRoom ⟨"!r"⟩))
      ⟨⟨"$1"⟩, 1, 1700000000000⟩ := by
  have ht : (openOver .counting { debounce := 500000000 } ⟨"@me"⟩ Shelf.empty).1 = .ok patient :=
    rfl
  have hms : ∀ room, .command (.forget room) ∉ refusedJump := by simp [refusedJump]
  exact (receipts_lost_only_with_refused_jumps ht hms).1 (.ofRoom ⟨"!r"⟩) _ (by decide)

/-- The receipt for reading the room neither waits nor was ever handed out. -/
theorem refused_jump_loses_a_receipt :
    patient.lastRead refusedJump (.ofRoom ⟨"!r"⟩) = some ⟨⟨"$1"⟩, 1, 1700000000000⟩ ∧
      (patient.after refusedJump).sends.size = 0 ∧
      ∀ a ∈ patient.answers refusedJump,
        ¬ a.Sends (patient.sendSlot (.ofRoom ⟨"!r"⟩)) ⟨"$1"⟩ := by
  decide

end

end Tracker

end ReadTracking
