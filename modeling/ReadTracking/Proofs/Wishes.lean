import ReadTracking.Proofs.Aside

/-!
# Wishes

Whatever reads a scope, here or elsewhere, does it by wishing that a marker stood at an update.
A wish is granted where it takes its marker further, and only there, and no storage has a say in
it.  So markers only go onward, a marker for which nothing is wished stays, and how far the
markers reach afterwards is read off the wishes in any order.  A turn is then known by the
wishes that it grants.
-/

set_option autoImplicit false

namespace ReadTracking

def Reaches (marks : Table Slot Mark) (slot : Slot) (q : Nat) : Prop :=
  ∃ m, marks.get? slot = some m ∧ q ≤ m.sequence

def Onward (marks marks' : Table Slot Mark) : Prop :=
  ∀ slot, marks'.get? slot = marks.get? slot ∨
    ∃ m', marks'.get? slot = some m' ∧ ∀ m, marks.get? slot = some m → m.sequence < m'.sequence

namespace Onward

variable {marks marks' marks'' : Table Slot Mark}

theorem refl (marks : Table Slot Mark) : Onward marks marks := fun _ => .inl rfl

theorem trans (h : Onward marks marks') (h' : Onward marks' marks'') : Onward marks marks'' := by
  intro slot
  rcases h' slot with e' | ⟨m'', hm'', hlt'⟩
  · rw [e']
    exact h slot
  · refine .inr ⟨m'', hm'', fun m hm => ?_⟩
    rcases h slot with e | ⟨m', hm', hlt⟩
    · exact hlt' m (e.trans hm)
    · exact Nat.lt_trans (hlt m hm) (hlt' m' hm')

theorem reaches (h : Onward marks marks') {slot : Slot} {q : Nat} (hr : Reaches marks slot q) :
    Reaches marks' slot q := by
  obtain ⟨m, hm, hq⟩ := hr
  rcases h slot with e | ⟨m', hm', hlt⟩
  · exact ⟨m, e.trans hm, hq⟩
  · exact ⟨m', hm', Nat.le_trans hq (Nat.le_of_lt (hlt m hm))⟩

end Onward

theorem sequence_eq_of_reaches {marks marks' : Table Slot Mark} {slot : Slot}
    (h : ∀ q, Reaches marks slot q ↔ Reaches marks' slot q) :
    (marks.get? slot).map (·.sequence) = (marks'.get? slot).map (·.sequence) := by
  have number : ∀ (o : Option Mark) (q : Nat),
      (∃ r, o.map (·.sequence) = some r ∧ q ≤ r) ↔ ∃ m, o = some m ∧ q ≤ m.sequence := by
    intro o q
    cases o <;> simp
  refine MarkerBook.eq_of_reaches fun q => ?_
  rw [number, number]
  exact h q

theorem MarkerBook.covers_iff_reaches {σ : Type} {b : MarkerBook σ} {s : Scope} {q : Nat} :
    b.covers s q = true ↔ ∃ v, Reaches b.marks ⟨s, v⟩ q :=
  MarkerBook.covers_iff

theorem MarkerBook.readTo_eq_of_reaches {σ τ : Type} {b : MarkerBook σ} {b' : MarkerBook τ}
    (h : ∀ slot q, Reaches b.marks slot q ↔ Reaches b'.marks slot q) (s : Scope) :
    b.readTo s = b'.readTo s := by
  refine readTo_eq_of_covers fun q => ?_
  rw [covers_iff_reaches, covers_iff_reaches]
  exact exists_congr fun v => h ⟨s, v⟩ q

/-- A wish that the marker of one visibility stood at an update. -/
structure Wish where
  visibility : Visibility
  update : Update
  deriving DecidableEq

namespace Wish

def slot (w : Wish) : Slot := ⟨w.update.scope, w.visibility⟩

def room (w : Wish) : RoomId := w.update.scope.room

def grant (now : Nat) (marks : Table Slot Mark) (w : Wish) : Table Slot Mark :=
  match marks.get? w.slot with
  | some m =>
    if w.update.sequence ≤ m.sequence then marks
    else marks.insert w.slot ⟨w.update.event, w.update.sequence, now⟩
  | none => marks.insert w.slot ⟨w.update.event, w.update.sequence, now⟩

def grantAll (now : Nat) (marks : Table Slot Mark) (ws : List Wish) : Table Slot Mark :=
  ws.foldl (grant now) marks

variable {now : Nat} {marks : Table Slot Mark} {w : Wish} {ws : List Wish}

theorem grant_of_reaches (h : Reaches marks w.slot w.update.sequence) :
    grant now marks w = marks := by
  obtain ⟨m, hm, hq⟩ := h
  simp only [grant, hm, if_pos hq]

theorem grant_of_not_reaches (h : ¬ Reaches marks w.slot w.update.sequence) :
    grant now marks w = marks.insert w.slot ⟨w.update.event, w.update.sequence, now⟩ := by
  unfold grant
  split
  next m hm => exact if_neg fun hq => h ⟨m, hm, hq⟩
  next => rfl

theorem get?_grant_of_ne {slot : Slot} (h : w.slot ≠ slot) :
    (grant now marks w).get? slot = marks.get? slot := by
  by_cases hr : Reaches marks w.slot w.update.sequence
  · rw [grant_of_reaches hr]
  · rw [grant_of_not_reaches hr, Table.get?_insert_of_ne _ _ h.symm]

theorem reaches_grant {slot : Slot} {q : Nat} : Reaches (grant now marks w) slot q ↔
    Reaches marks slot q ∨ w.slot = slot ∧ q ≤ w.update.sequence := by
  by_cases e : w.slot = slot
  case neg =>
    have hsame : (grant now marks w).get? slot = marks.get? slot := get?_grant_of_ne e
    simp only [Reaches, hsame, e, false_and, or_false]
  subst e
  by_cases hr : Reaches marks w.slot w.update.sequence
  · rw [grant_of_reaches hr]
    obtain ⟨m, hm, hle⟩ := hr
    exact ⟨.inl, fun h => h.elim id fun h => ⟨m, hm, Nat.le_trans h.2 hle⟩⟩
  · rw [grant_of_not_reaches hr]
    constructor
    · rintro ⟨m, hm, hq⟩
      cases (Table.get?_insert_self _ _ _).symm.trans hm
      exact .inr ⟨rfl, hq⟩
    · rintro (⟨m, hm, hq⟩ | ⟨-, hq⟩)
      · -- A marker that the wish leaves behind reaches no further than the wish.
        have hlt : m.sequence < w.update.sequence := Nat.lt_of_not_le fun hle => hr ⟨m, hm, hle⟩
        exact ⟨_, Table.get?_insert_self _ _ _, Nat.le_trans hq (Nat.le_of_lt hlt)⟩
      · exact ⟨_, Table.get?_insert_self _ _ _, hq⟩

theorem onward_grant (now : Nat) (marks : Table Slot Mark) (w : Wish) :
    Onward marks (grant now marks w) := by
  intro slot
  by_cases e : w.slot = slot
  case neg => exact .inl (get?_grant_of_ne e)
  subst e
  by_cases hr : Reaches marks w.slot w.update.sequence
  · rw [grant_of_reaches hr]
    exact .inl rfl
  · rw [grant_of_not_reaches hr]
    refine .inr ⟨_, Table.get?_insert_self _ _ _, fun m hm => ?_⟩
    exact Nat.lt_of_not_le fun hle => hr ⟨m, hm, hle⟩

theorem grantAll_append (now : Nat) (marks : Table Slot Mark) (ws ws' : List Wish) :
    grantAll now marks (ws ++ ws') = grantAll now (grantAll now marks ws) ws' :=
  List.foldl_append

theorem get?_grantAll_of_ne {slot : Slot} (h : ∀ w ∈ ws, w.slot ≠ slot) :
    (grantAll now marks ws).get? slot = marks.get? slot := by
  induction ws generalizing marks with
  | nil => rfl
  | cons w ws ih =>
    refine (ih fun w' hw' => h w' (List.mem_cons_of_mem _ hw')).trans ?_
    exact get?_grant_of_ne (h w List.mem_cons_self)

theorem reaches_grantAll {slot : Slot} {q : Nat} : Reaches (grantAll now marks ws) slot q ↔
    Reaches marks slot q ∨ ∃ w ∈ ws, w.slot = slot ∧ q ≤ w.update.sequence := by
  induction ws generalizing marks with
  | nil => simp [grantAll]
  | cons w ws ih =>
    refine ih.trans ?_
    rw [reaches_grant, or_assoc]
    simp only [List.mem_cons, exists_eq_or_imp]

theorem onward_grantAll (now : Nat) (marks : Table Slot Mark) (ws : List Wish) :
    Onward marks (grantAll now marks ws) := by
  induction ws generalizing marks with
  | nil => exact .refl marks
  | cons w ws ih => exact (onward_grant now marks w).trans (ih _)

/-- Wishes that are fulfilled already change nothing. -/
theorem grantAll_of_reaches (h : ∀ w ∈ ws, Reaches marks w.slot w.update.sequence) :
    grantAll now marks ws = marks := by
  induction ws with
  | nil => rfl
  | cons w ws ih =>
    show grantAll now (grant now marks w) ws = marks
    rw [grant_of_reaches (h w List.mem_cons_self)]
    exact ih fun w' hw' => h w' (List.mem_cons_of_mem _ hw')

end Wish

/-! ## Books grant wishes -/

namespace MarkerBook

variable {σ : Type} {b : MarkerBook σ} {v : Visibility} {u : Update}

theorem isStale_iff_reaches : b.isStale v u = true ↔ Reaches b.marks ⟨u.scope, v⟩ u.sequence :=
  isStale_iff

theorem marks_setAll_eq (v : Visibility) (now : Nat) (us : List Update) (b : MarkerBook σ) :
    (b.setAll v now us).1.marks = Wish.grantAll now b.marks (us.map (Wish.mk v)) := by
  induction us generalizing b with
  | nil => rfl
  | cons u us ih =>
    simp only [setAll]
    split
    next h =>
      refine (ih b).trans ?_
      show _ = Wish.grantAll now (Wish.grant now b.marks ⟨v, u⟩) _
      rw [Wish.grant_of_reaches (isStale_iff_reaches.1 h)]
    next h =>
      refine (ih _).trans ?_
      show _ = Wish.grantAll now (Wish.grant now b.marks ⟨v, u⟩) _
      rw [Wish.grant_of_not_reaches fun hr => h (isStale_iff_reaches.2 hr)]
      rfl

variable [Backing σ]

theorem marks_advance_eq (b : MarkerBook σ) (u : Update) (v : Visibility) (now : Nat) :
    (b.advance u v now).1.marks = Wish.grant now b.marks ⟨v, u⟩ := by
  cases h : b.isStale v u with
  | true =>
    rw [advance_of_isStale b h, Wish.grant_of_reaches (isStale_iff_reaches.1 h)]
  | false =>
    have hr : ¬ Reaches b.marks ⟨u.scope, v⟩ u.sequence := fun hr => by
      simp [isStale_iff_reaches.2 hr] at h
    rw [marks_advance b h, Wish.grant_of_not_reaches hr]
    rfl

theorem marks_advanceAll_eq (b : MarkerBook σ) (us : List Update) (v : Visibility) (now : Nat) :
    (b.advanceAll us v now).1.marks = Wish.grantAll now b.marks (us.map (Wish.mk v)) := by
  rw [marks_advanceAll, marks_setAll_eq]

end MarkerBook

/-! ## Turns grant wishes -/

def Placed.update (p : Placed) : Update := ⟨p.scope, p.id, p.position.sequence⟩

def Wish.ofReceipt (c : Chronicle) (u : Update) (v : Visibility) : Reach → List Wish
  | .scope => [⟨v, u⟩]
  | .room => (Turn.floors c u.scope.room u.sequence).map (Wish.mk v)

namespace Tracker

variable {σ : Type} (t : Tracker σ)

def ownWishes (p : Placed) : List Wish :=
  match t.chronicle.get? p.id with
  | none => []
  | some e =>
    if e.message.sender = t.reader ∧ t.policy.ownMessagesRead then [⟨.shared, p.update⟩] else []

def heldWishes (p : Placed) : List Wish :=
  match t.held.get? p.id with
  | none => []
  | some h => h.receipts.flatMap fun w => Wish.ofReceipt t.chronicle p.update w.1 w.2

def wishes (p : Placed) : List Wish := t.ownWishes p ++ t.heldWishes p

variable {t} {p : Placed} {w : Wish}

theorem mem_ownWishes : w ∈ t.ownWishes p ↔ ∃ e, t.chronicle.get? p.id = some e ∧
    e.message.sender = t.reader ∧ t.policy.ownMessagesRead = true ∧ w = ⟨.shared, p.update⟩ := by
  unfold ownWishes
  cases t.chronicle.get? p.id with
  | none => simp
  | some e =>
    by_cases h : e.message.sender = t.reader ∧ t.policy.ownMessagesRead = true
    · simp [h]
    · simp only [if_neg h, List.not_mem_nil, Option.some.injEq, exists_eq_left', false_iff]
      exact fun hw => h ⟨hw.1, hw.2.1⟩

theorem mem_heldWishes : w ∈ t.heldWishes p ↔ ∃ h, t.held.get? p.id = some h ∧
    ∃ x ∈ h.receipts, w ∈ Wish.ofReceipt t.chronicle p.update x.1 x.2 := by
  unfold heldWishes
  cases t.held.get? p.id with
  | none => simp
  | some h => simp only [List.mem_flatMap, Option.some.injEq, exists_eq_left']

end Tracker

namespace Turn

variable {σ : Type}

structure Grants (ws : List Wish) (r r' : Turn σ) : Prop where
  ambient : r'.tracker.ambient = r.tracker.ambient
  policy : r'.tracker.policy = r.tracker.policy
  reader : r'.tracker.reader = r.tracker.reader
  chronicle : r'.tracker.chronicle = r.tracker.chronicle
  listeners : r'.tracker.listeners = r.tracker.listeners
  reported : r'.tracker.reported = r.tracker.reported
  awaited : ∀ a, r'.tracker.awaited = some a → r.tracker.awaited = some a
  notices : r'.notices = r.notices
  marks : r'.tracker.book.marks =
    Wish.grantAll r.tracker.ambient.wallClock r.tracker.book.marks ws

namespace Grants

variable {r r' r'' : Turn σ} {ws ws' : List Wish}

theorem refl (r : Turn σ) : r.Grants [] r := ⟨rfl, rfl, rfl, rfl, rfl, rfl, fun _ h => h, rfl, rfl⟩

theorem trans (h : r.Grants ws r') (h' : r'.Grants ws' r'') : r.Grants (ws ++ ws') r'' where
  ambient := h'.ambient.trans h.ambient
  policy := h'.policy.trans h.policy
  reader := h'.reader.trans h.reader
  chronicle := h'.chronicle.trans h.chronicle
  listeners := h'.listeners.trans h.listeners
  reported := h'.reported.trans h.reported
  awaited a ha := h.awaited a (h'.awaited a ha)
  notices := h'.notices.trans h.notices
  marks := by rw [h'.marks, h.ambient, h.marks, Wish.grantAll_append]

end Grants

section

variable [Backing σ] (r : Turn σ)

theorem grants_readElsewhere (u : Update) (v : Visibility) :
    r.Grants [⟨v, u⟩] (r.readElsewhere u v) := by
  rw [readElsewhere_eq]
  exact ⟨rfl, rfl, rfl, rfl, rfl, rfl, fun _ h => h, rfl, MarkerBook.marks_advance_eq _ _ _ _⟩

theorem grants_applyReceipt (u : Update) (v : Visibility) (reach : Reach) :
    r.Grants (Wish.ofReceipt r.tracker.chronicle u v reach) (r.applyReceipt u v reach) := by
  cases reach with
  | scope => exact r.grants_readElsewhere u v
  | room =>
    show r.Grants _ (r.readRoomElsewhere u.scope.room u.sequence v)
    rw [readRoomElsewhere_eq]
    exact ⟨rfl, rfl, rfl, rfl, rfl, rfl, fun _ h => h, rfl, MarkerBook.marks_advanceAll_eq _ _ _ _⟩

theorem grants_readOwn (p : Placed) : r.Grants (r.tracker.ownWishes p) (r.readOwn p) := by
  simp only [readOwn, Tracker.ownWishes]
  cases r.tracker.chronicle.get? p.id with
  | none => exact .refl r
  | some e =>
    dsimp only
    by_cases h : e.message.sender = r.tracker.reader ∧ r.tracker.policy.ownMessagesRead = true
    · rw [if_pos h, if_pos h]
      exact r.grants_readElsewhere _ _
    · rw [if_neg h, if_neg h]
      exact .refl r

theorem grants_receipts (u : Update) (receipts : List (Visibility × Reach)) :
    r.Grants (receipts.flatMap fun w => Wish.ofReceipt r.tracker.chronicle u w.1 w.2)
      (receipts.foldl (fun r w => r.applyReceipt u w.1 w.2) r) := by
  induction receipts generalizing r with
  | nil => exact .refl r
  | cons w receipts ih =>
    have hw := r.grants_applyReceipt u w.1 w.2
    have hrest := ih (r.applyReceipt u w.1 w.2)
    rw [hw.chronicle] at hrest
    exact hw.trans hrest

theorem grants_releaseHeld (p : Placed) :
    r.Grants (r.tracker.heldWishes p) (r.releaseHeld p) := by
  simp only [releaseHeld, Tracker.heldWishes]
  cases r.tracker.held.get? p.id with
  | none => exact .refl r
  | some h =>
    let r₁ := r.update fun t => { t with held := t.held.erase p.id }
    have hkept : r.Grants [] r₁ := ⟨rfl, rfl, rfl, rfl, rfl, rfl, fun _ h => h, rfl, rfl⟩
    have hrest := hkept.trans (r₁.grants_receipts p.update h.receipts)
    exact hrest

theorem held_readElsewhere (u : Update) (v : Visibility) :
    (r.readElsewhere u v).tracker.held = r.tracker.held := by
  rw [readElsewhere_eq]

theorem held_applyReceipt (u : Update) (v : Visibility) (reach : Reach) :
    (r.applyReceipt u v reach).tracker.held = r.tracker.held := by
  cases reach with
  | scope => exact r.held_readElsewhere u v
  | room =>
    show (r.readRoomElsewhere u.scope.room u.sequence v).tracker.held = _
    rw [readRoomElsewhere_eq]

theorem held_readOwn (p : Placed) : (r.readOwn p).tracker.held = r.tracker.held := by
  unfold readOwn
  dsimp only
  split
  · rfl
  · split
    · exact r.held_readElsewhere _ _
    · rfl

theorem held_receipts (u : Update) (receipts : List (Visibility × Reach)) :
    (receipts.foldl (fun r w => r.applyReceipt u w.1 w.2) r).tracker.held = r.tracker.held := by
  induction receipts generalizing r with
  | nil => rfl
  | cons w receipts ih => exact (ih _).trans (r.held_applyReceipt u w.1 w.2)

theorem get?_held_releaseHeld (p : Placed) (id : EventId) :
    (r.releaseHeld p).tracker.held.get? id =
      if id = p.id then none else r.tracker.held.get? id := by
  unfold releaseHeld
  split
  next h =>
    split
    next e => rw [e, h]
    next => rfl
  next => rw [held_receipts, update, Table.get?_erase]

theorem get?_held_afterPlacing (placed : List Placed) (id : EventId) :
    (r.afterPlacing placed).tracker.held.get? id =
      if id ∈ placed.map (·.id) then none else r.tracker.held.get? id := by
  induction placed generalizing r with
  | nil => rfl
  | cons p placed ih =>
    refine (ih _).trans ?_
    rw [get?_held_releaseHeld, held_readOwn]
    by_cases e : id = p.id
    · simp [e]
    · simp [e]

/-- Newly indexed messages are taken care of one by one; as they have different names, what is
held for one is not touched by another. -/
theorem grants_afterPlacing {placed : List Placed} (hn : (placed.map (·.id)).Nodup)
    (t : Tracker σ) (hc : r.tracker.chronicle = t.chronicle) (hr : r.tracker.reader = t.reader)
    (hp : r.tracker.policy = t.policy)
    (hh : ∀ p ∈ placed, r.tracker.held.get? p.id = t.held.get? p.id) :
    r.Grants (placed.flatMap t.wishes) (r.afterPlacing placed) := by
  induction placed generalizing r with
  | nil => exact .refl r
  | cons p placed ih =>
    obtain ⟨hfirst, hrest⟩ := List.nodup_cons.1 hn
    have hown : r.tracker.ownWishes p = t.ownWishes p := by
      simp only [Tracker.ownWishes, hc, hr, hp]
    have h₁ := r.grants_readOwn p
    have hheld : (r.readOwn p).tracker.heldWishes p = t.heldWishes p := by
      simp only [Tracker.heldWishes, h₁.chronicle, held_readOwn, hc, hh p List.mem_cons_self]
    have h₂ := (r.readOwn p).grants_releaseHeld p
    rw [hown] at h₁
    rw [hheld] at h₂
    have h₃ := h₁.trans h₂
    refine h₃.trans (ih _ hrest (h₃.chronicle.trans hc) (h₃.reader.trans hr)
      (h₃.policy.trans hp) fun p' hp' => ?_)
    have hne : p'.id ≠ p.id := fun e => hfirst (List.mem_map.2 ⟨p', hp', e⟩)
    rw [get?_held_releaseHeld, if_neg hne, held_readOwn]
    exact hh p' (List.mem_cons_of_mem _ hp')

/-! ## Reading on this device -/

theorem grants_read (u : Update) :
    ∃ ws, (∀ w ∈ ws, w = ⟨.personal, u⟩) ∧ r.Grants ws (r.read u) := by
  by_cases h : r.tracker.book.covers u.scope u.sequence = true
  · rw [r.read_of_covers h]
    exact ⟨[], List.forall_mem_nil _, .refl r⟩
  · rw [r.read_of_not_covers h]
    refine ⟨[⟨.personal, u⟩], fun w hw => List.mem_singleton.1 hw, ?_⟩
    exact ⟨rfl, rfl, rfl, rfl, rfl, rfl, fun _ h => h, rfl, MarkerBook.marks_advance_eq _ _ _ _⟩

theorem grants_readAll (us : List Update) :
    r.Grants (us.map (Wish.mk .personal)) (r.readAll us) := by
  rw [readAll_eq]
  exact ⟨rfl, rfl, rfl, rfl, rfl, rfl, fun _ h => h, rfl, MarkerBook.marks_advanceAll_eq _ _ _ _⟩

theorem grants_readToEnd (s : Scope) :
    ∃ ws, (∀ w ∈ ws, w.update.scope = s) ∧ r.Grants ws (r.readToEnd s) := by
  unfold readToEnd
  split
  next u hu =>
    obtain ⟨ws, hws, h⟩ := r.grants_read u
    refine ⟨ws, fun w hw => ?_, h⟩
    rw [hws w hw]
    simp only [horizon, Option.map_eq_some_iff] at hu
    obtain ⟨_, -, rfl⟩ := hu
    rfl
  next => exact ⟨[], List.forall_mem_nil _, .refl r⟩

theorem grants_read_looking (focus : Option Focus) (u : Update) :
    ∃ ws, (∀ w ∈ ws, w = ⟨.personal, u⟩) ∧
      r.Grants ws ((r.update fun t => { t with focus }).read u) := by
  obtain ⟨ws, hws, h⟩ := (r.update fun t => { t with focus }).grants_read u
  exact ⟨ws, hws, h.ambient, h.policy, h.reader, h.chronicle, h.listeners, h.reported, h.awaited,
    h.notices, h.marks⟩

theorem grants_land (room : RoomId) (e : Indexed) :
    ∃ ws, (∀ w ∈ ws, w.update.scope = e.scope) ∧ r.Grants ws (r.land room e) := by
  unfold land
  exact (r.grants_read_looking _ _).imp fun ws h =>
    ⟨fun w hw => congrArg (·.update.scope) (h.1 w hw), h.2⟩

theorem grants_followLive (room : RoomId) (placed : List Placed) (limited : Bool) :
    ∃ ws, (∀ w ∈ ws, w.room = room) ∧ r.Grants ws (r.followLive room placed limited) := by
  refine followLive_induction
    (P := fun r' => ∃ ws : List Wish, (∀ w ∈ ws, w.room = room) ∧ r.Grants ws r')
    ⟨[], List.forall_mem_nil _, .refl r⟩ ?_ placed limited
  rintro s r' hs ⟨ws, hws, h⟩
  obtain ⟨ws', hws', h'⟩ := r'.grants_readToEnd s
  refine ⟨ws ++ ws', fun w hw => ?_, h.trans h'⟩
  rcases List.mem_append.1 hw with hw | hw
  · exact hws w hw
  · exact (congrArg Scope.room (hws' w hw)).trans hs

end

end Turn

end ReadTracking
