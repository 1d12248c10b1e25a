import ReadTracking.Backing.Shelf
import ReadTracking.Proofs.Holding

/-!
# Receipts take effect

A receipt of the reader is honoured: if its message is indexed, the marker of its kind stands there
or further, and if not, the receipt waits.  Whatever brings the message, in whatever operation and
however that operation ends, applies the receipts that waited for it; and no command takes back what
was honoured, unless it forgets a room.  The one thing that loses a receipt is that receipts wait
for too many other messages already when it comes.
-/

set_option autoImplicit false

namespace ReadTracking

/-! ## What a receipt wishes -/

/-- A receipt for an indexed message wishes its scope read that far, also when it is for the whole
room. -/
theorem Wish.exists_ofReceipt {c : Chronicle} (hc : c.Sound) {id : EventId} {e : Indexed}
    (he : c.get? id = some e) (v : Visibility) (reach : Reach) :
    ∃ w ∈ ofReceipt c ⟨e.scope, id, e.position.sequence⟩ v reach,
      w.slot = ⟨e.scope, v⟩ ∧ e.position.sequence ≤ w.update.sequence := by
  cases reach with
  | scope => exact ⟨_, List.mem_singleton.2 rfl, rfl, Nat.le_refl _⟩
  | room =>
    have hscope : e.scope ∈ c.scopes e.scope.room := hc.mem_scopes he
    cases hf : c.floor e.scope e.position.sequence with
    | none =>
      rw [Chronicle.floor_eq] at hf
      have hno := hc.last_filter_none hf he rfl
      simp at hno
    | some e' =>
      obtain ⟨-, -, -, hmax⟩ := hc.floor_eq_some hf
      -- The message itself is below its sequence, so the floor is not before it.
      have hlast := hmax he rfl (Nat.le_refl _)
      have hle : e.position.sequence ≤ e'.position.sequence := by
        apply Nat.le_of_not_lt
        intro hlt
        exact hlast ((KeyOrder.pairBefore_iff _ _).2 (.inl hlt))
      refine ⟨⟨v, ⟨e.scope, e'.message.id, e'.position.sequence⟩⟩, ?_, rfl, hle⟩
      apply List.mem_map_of_mem
      apply List.mem_filterMap.2
      exact ⟨e.scope, hscope, by rw [hf]; rfl⟩

namespace Tracker

variable {σ : Type}

structure Honours (t : Tracker σ) (event : EventId) (receipt : Visibility × Reach) : Prop where
  read : ∀ e, t.chronicle.get? event = some e →
    Reaches t.book.marks ⟨e.scope, receipt.1⟩ e.position.sequence
  waits : t.chronicle.get? event = none →
    ∃ h, t.held.get? event = some h ∧ receipt ∈ h.receipts

/-- Receipts that wait are among the wishes of the message that they wait for. -/
theorem exists_heldWishes {t : Tracker σ} (hc : t.chronicle.Sound) {p : Placed}
    (hp : t.chronicle.Has p) {h : Held} (hh : t.held.get? p.id = some h)
    {receipt : Visibility × Reach} (hr : receipt ∈ h.receipts) :
    ∃ w ∈ t.wishes p, w.slot = ⟨p.scope, receipt.1⟩ ∧ p.position.sequence ≤ w.update.sequence := by
  obtain ⟨e, he, hscope, hpos⟩ := hp
  obtain ⟨w, hw, hslot, hle⟩ := Wish.exists_ofReceipt hc he receipt.1 receipt.2
  rw [hscope, hpos] at hw
  rw [hscope] at hslot
  rw [hpos] at hle
  refine ⟨w, ?_, hslot, hle⟩
  apply List.mem_append_right
  exact mem_heldWishes.2 ⟨h, hh, receipt, hr, hw⟩

variable [Backing σ] {t : Tracker σ} {event : EventId} {receipt : Visibility × Reach}

/-! ## What is honoured stays honoured -/

theorem Honours.read_handle (h : t.Honours event receipt) (hc : t.chronicle.Sound) {c : Command}
    (hf : ∀ room, c ≠ .forget room) {e : Indexed}
    (he : (t.handle c).tracker.chronicle.get? event = some e) :
    Reaches (t.handle c).tracker.book.marks ⟨e.scope, receipt.1⟩ e.position.sequence := by
  obtain ⟨ws, place, hconduct⟩ := t.conducts c hf
  rw [hconduct.grants.chronicle] at he
  cases hid : t.chronicle.get? event with
  | some e' =>
    cases (get?_loaded_of_some hid c).symm.trans he
    have honward : Onward t.book.marks (t.handle c).tracker.book.marks :=
      onward_meet (m := .command c) fun room hm => hf room (Moment.command.inj hm)
    exact honward.reaches (h.read e hid)
  | none =>
    -- The command brought the message, and the receipt that waited for it is a wish that it grants.
    obtain ⟨x, hx, hr⟩ := h.waits hid
    obtain ⟨p, hp, rfl⟩ := List.mem_map.1 ((mem_placed_iff hc).2 ⟨hid, e, he⟩)
    have hhas : (t.loaded c).chronicle.Has p := by
      unfold placed at hp
      unfold loaded
      split at hp
      next b hb => exact Chronicle.has_take p hp
      next => cases hp
    have hheld : (t.loaded c).held.get? p.id = some x := by
      obtain ⟨chronicle, hl⟩ := t.loaded_with c
      rw [hl]
      exact hx
    obtain ⟨w, hw, hslot, hle⟩ := exists_heldWishes (sound_loaded hc c) hhas hheld hr
    obtain ⟨e', he', hscope, hpos⟩ := hhas
    cases he'.symm.trans he
    rw [hconduct.grants.marks, Wish.reaches_grantAll, hscope, hpos]
    exact .inr ⟨w, hconduct.arrival (List.mem_flatMap.2 ⟨p, hp, hw⟩), hslot, hle⟩

theorem Honours.waits_handle (h : t.Honours event receipt) (hc : t.chronicle.Sound) {c : Command}
    (hf : ∀ room, c ≠ .forget room)
    (hn : (t.handle c).tracker.chronicle.get? event = none) :
    ∃ x, (t.handle c).tracker.held.get? event = some x ∧ receipt ∈ x.receipts := by
  obtain ⟨ws, place, hconduct⟩ := t.conducts c hf
  rw [hconduct.grants.chronicle] at hn
  have hid : t.chronicle.get? event = none := by
    apply Option.eq_none_iff_forall_ne_some.2
    intro e he
    cases (get?_loaded_of_some he c).symm.trans hn
  obtain ⟨x, hx, hr⟩ := h.waits hid
  have hheld := (t.foresees c).held
  generalize (t.handle c).tracker.held = held at hheld ⊢
  cases hheld with
  | settle hs =>
    have hnot : event ∉ (t.placed c).map (·.id) := by
      intro hmem
      obtain ⟨-, e, he⟩ := (mem_placed_iff hc).1 hmem
      cases hn.symm.trans he
    refine ⟨x, ?_, hr⟩
    rw [hs, if_neg hnot, hx]
  | @hold room event' hn' v reach =>
    rcases Turn.hold_cases { tracker := t } room event' v reach with ⟨-, -, heq⟩ | ⟨-, heq⟩
    · rw [heq]
      exact ⟨x, hx, hr⟩
    · rw [heq]
      by_cases e : event = event'
      · subst e
        refine ⟨_, Table.get?_insert_self _ _ _, ?_⟩
        rw [Held.mem_add]
        show receipt = (v, reach) ∨ receipt ∈ ((t.held.get? event).getD ⟨room, []⟩).receipts
        rw [hx]
        exact .inr hr
      · exact ⟨x, (Table.get?_insert_of_ne _ _ e).trans hx, hr⟩
  | drop room => exact absurd rfl (hf room)

theorem Honours.meet (h : t.Honours event receipt) (hc : t.chronicle.Sound) {m : Moment}
    (hf : ∀ room, m ≠ .command (.forget room)) : (t.meet m).tracker.Honours event receipt := by
  cases m with
  | surroundings | subscribe | unsubscribe => exact ⟨h.read, h.waits⟩
  | command c =>
    have hf : ∀ room, c ≠ .forget room := fun room e => hf room (congrArg Moment.command e)
    exact ⟨fun _ he => h.read_handle hc hf he, h.waits_handle hc hf⟩

theorem Honours.after (h : t.Honours event receipt) (hc : t.chronicle.Sound) {ms : List Moment}
    (hf : ∀ room, .command (.forget room) ∉ ms) : (t.after ms).Honours event receipt :=
  after_keeps_of_sound (P := fun t => t.Honours event receipt) hc h
    fun _ hm _ hs ht => ht.meet hs fun room e => hf room (e ▸ hm)

/-! ## A receipt comes -/

theorem honours_receipt (hc : t.chronicle.Sound) (room : RoomId) (event : EventId)
    (v : Visibility) (reach : Reach) (hroom : t.chronicle.get? event = none →
      t.held.get? event = none → t.held.size < maxHeld) :
    (t.handle (.receipt room t.reader event v reach)).tracker.Honours event (v, reach) := by
  cases he : t.chronicle.get? event with
  | some e =>
    have hend : t.handle (.receipt room t.reader event v reach) =
        ((({ tracker := t } : Turn σ).applyReceipt ⟨e.scope, event, e.position.sequence⟩ v
          reach).report e.scope.room).release.done := by
      simp only [handle, Tracker.receipt, if_true, he]
    have hg := (Turn.grants_applyReceipt { tracker := t } ⟨e.scope, event, e.position.sequence⟩ v
      reach).answer e.scope.room (.inl hend)
    obtain ⟨w, hw, hslot, hle⟩ := Wish.exists_ofReceipt hc he v reach
    refine ⟨fun e' he' => ?_, fun hn => ?_⟩
    · rw [hg.chronicle, he] at he'
      cases he'
      rw [hg.marks, Wish.reaches_grantAll]
      exact .inr ⟨w, hw, hslot, hle⟩
    · rw [hg.chronicle, he] at hn
      cases hn
  | none =>
    have hend : (t.handle (.receipt room t.reader event v reach)).tracker =
        ((({ tracker := t } : Turn σ).hold room event v reach).release).tracker := by
      simp only [handle, Tracker.receipt, if_true, he]
      rfl
    have hsame := Turn.aside_hold { tracker := t } room event v reach
    rw [hend]
    refine ⟨fun e' he' => ?_, fun _ => ?_⟩
    · have he' : (({ tracker := t } : Turn σ).hold room event v reach).tracker.chronicle.get?
          event = some e' := he'
      rw [hsame.chronicle] at he'
      cases he.symm.trans he'
    · rcases Turn.hold_cases { tracker := t } room event v reach with ⟨hn, hfull, -⟩ | ⟨-, heq⟩
      · exact absurd hfull (Nat.not_le_of_lt (hroom he hn))
      · rw [heq]
        exact ⟨_, Table.get?_insert_self _ _ _, Held.mem_add.2 (.inl rfl)⟩

/-! ## Courses -/

theorem reader_meet (m : Moment) : (t.meet m).tracker.reader = t.reader := by
  cases m with
  | surroundings | subscribe | unsubscribe => rfl
  | command c =>
    rcases t.forget_or_conducts c with ⟨room, rfl⟩ | ⟨ws, place, h⟩
    · show (t.forget room).tracker.reader = t.reader
      unfold Tracker.forget
      split <;> rfl
    · obtain ⟨chronicle, hl⟩ := t.loaded_with c
      refine h.grants.reader.trans ?_
      rw [hl]

theorem reader_after (ms : List Moment) : (t.after ms).reader = t.reader :=
  after_keeps (P := fun u => u.reader = t.reader) rfl fun m _ _ hu => (reader_meet m).trans hu

/-- When a receipt of the reader comes for a message that is not indexed and for which no receipt
waits yet, receipts wait for fewer messages than they may. -/
def NeverFull (t : Tracker σ) (ms : List Moment) : Prop :=
  ∀ pre room event v reach post,
    ms = pre ++ .command (.receipt room t.reader event v reach) :: post →
    (t.after pre).chronicle.get? event = none → (t.after pre).held.get? event = none →
    (t.after pre).held.size < maxHeld

theorem size_held_meet (m : Moment) : (t.meet m).tracker.held.size ≤ t.held.size + 1 := by
  cases m with
  | surroundings | subscribe | unsubscribe => exact Nat.le_succ _
  | command c =>
    have hheld := (t.foresees c).held
    show (t.handle c).tracker.held.size ≤ t.held.size + 1
    generalize (t.handle c).tracker.held = held at hheld ⊢
    rcases hheld.fewer_or_hold with hfewer | ⟨room, event, v, reach, -, -, rfl⟩
    · apply Nat.le_succ_of_le
      apply Table.size_le_of_keys
      intro id x hx
      exact ⟨x, (hfewer id x hx).2⟩
    · rcases Turn.hold_cases { tracker := t } room event v reach with ⟨-, -, heq⟩ | ⟨-, heq⟩
      · rw [heq]
        exact Nat.le_succ _
      · rw [heq]
        exact Table.size_insert_le _ _ _

theorem size_held_after (ms : List Moment) :
    (t.after ms).held.size ≤ t.held.size + ms.length := by
  induction ms generalizing t with
  | nil => exact Nat.le_refl _
  | cons m ms ih =>
    have hfirst := t.size_held_meet m
    have hrest := ih (t := (t.meet m).tracker)
    rw [List.length_cons]
    show ((t.meet m).tracker.after ms).held.size ≤ _
    omega

theorem neverFull_of_short {ms : List Moment} (h : t.held.size + ms.length ≤ maxHeld) :
    t.NeverFull ms := by
  rintro pre room event v reach post rfl - -
  have hsize := t.size_held_after pre
  rw [List.length_append, List.length_cons] at h
  omega

/-- In every course from the opening of a tracker that forgets no room and in which there is always
room for a receipt that waits for yet another message, no receipt of the reader is lost or stuck:
once its message is indexed, whatever brought it, the marker of its kind stands at the message or
further in the scope of the message; until then the receipt waits.  All the while receipts wait for
messages that are not indexed only, for no more of them than may be, and each receipt once. -/
theorem receipts_take_effect {ambient : Ambient} {policy : Policy} {reader : UserId} {s : σ}
    {t : Tracker σ} (ht : (openOver ambient policy reader s).1 = .ok t) {ms : List Moment}
    (hf : ∀ room, .command (.forget room) ∉ ms) (hroom : t.NeverFull ms) :
    (∀ pre room event v reach post,
      ms = pre ++ .command (.receipt room reader event v reach) :: post →
      (∀ e, (t.after ms).chronicle.get? event = some e →
        ∃ mark, (t.after ms).book.mark? e.scope v = some mark ∧
          e.message.sequence ≤ mark.sequence) ∧
      ((t.after ms).chronicle.get? event = none →
        ∃ h, (t.after ms).held.get? event = some h ∧ (v, reach) ∈ h.receipts)) ∧
    Tidy (t.after ms).chronicle (t.after ms).held := by
  obtain ⟨book, rfl, -⟩ := eq_fresh_of_openOver ht
  have hsound : (fresh ambient policy reader book).chronicle.Sound := Chronicle.sound_empty _
  refine ⟨?_, tidy_after hsound (.start _) ms⟩
  rintro pre room event v reach post rfl
  let u := (fresh ambient policy reader book).after pre
  have hreader : u.reader = reader := reader_after pre
  have hu : u.chronicle.Sound := sound_after hsound pre
  have hcame := honours_receipt hu room event v reach
    (hroom pre room event v reach post rfl)
  have hpost : ∀ room, .command (.forget room) ∉ post := fun room hm =>
    hf room (List.mem_append_right pre (List.mem_cons_of_mem _ hm))
  have hend := hcame.after (sound_meet hu (.command _)) hpost
  have hall : (fresh ambient policy reader book).after
      (pre ++ .command (.receipt room reader event v reach) :: post) =
        (u.handle (.receipt room u.reader event v reach)).tracker.after post := by
    rw [after_append, hreader]
    rfl
  rw [hall]
  refine ⟨fun e he => ?_, hend.waits⟩
  rw [← (sound_after (sound_meet hu (.command _)) post).numbered he]
  exact hend.read e he

/-- Receipts come before their messages: one for the answer in a thread, which a jump brings that is
refused for it, one for a whole room, whose message comes later, and one for a message that never
comes. -/
theorem receipts_take_effect_before_messages :
    let room : RoomId := ⟨"!r"⟩
    let said (id : String) (q : Nat) (content : Content) : Message :=
      ⟨⟨id⟩, room, ⟨"@bot"⟩, q, content, false⟩
    let receipt (id : String) (v : Visibility) (reach : Reach) : Moment :=
      .command (.receipt room ⟨"@me"⟩ ⟨id⟩ v reach)
    let t : Tracker Shelf := fresh .counting {} ⟨"@me"⟩ ⟨.empty, .empty, .empty⟩
    let u := t.after [receipt "$2" .personal .scope, receipt "$3" .shared .room,
      receipt "$4" .shared .scope, .command (.jump room ⟨"$2"⟩ false),
      .command (.supply 1 [said "$1" 1 .plain, said "$2" 2 (.threadReply ⟨"$1"⟩)]),
      .command (.viewRoom room), .command (.receive room [said "$3" 3 .plain] false)]
    (∃ mark, u.book.mark? (.ofThread room ⟨"$1"⟩) .personal = some mark ∧ 2 ≤ mark.sequence) ∧
      (∃ mark, u.book.mark? (.ofRoom room) .shared = some mark ∧ 3 ≤ mark.sequence) ∧
      (∃ h, u.held.get? ⟨"$4"⟩ = some h ∧ (.shared, .scope) ∈ h.receipts) ∧
      (u.threadState room ⟨"$1"⟩).map (·.unread) = some 0 := by
  intro room said receipt t u
  have ht : (openOver .counting {} ⟨"@me"⟩ Shelf.empty).1 = .ok t := rfl
  have hroom : t.NeverFull [receipt "$2" .personal .scope, receipt "$3" .shared .room,
      receipt "$4" .shared .scope, .command (.jump room ⟨"$2"⟩ false),
      .command (.supply 1 [said "$1" 1 .plain, said "$2" 2 (.threadReply ⟨"$1"⟩)]),
      .command (.viewRoom room), .command (.receive room [said "$3" 3 .plain] false)] :=
    neverFull_of_short (by decide)
  obtain ⟨heffect, -⟩ := receipts_take_effect ht (by simp [receipt]) hroom
  have hreply : (u.chronicle.get? ⟨"$2"⟩).map (fun e => (e.scope, e.message.sequence)) =
      some (.ofThread room ⟨"$1"⟩, 2) := by decide +kernel
  have hnews : (u.chronicle.get? ⟨"$3"⟩).map (fun e => (e.scope, e.message.sequence)) =
      some (.ofRoom room, 3) := by decide +kernel
  have hnever : u.chronicle.get? ⟨"$4"⟩ = none := by decide +kernel
  obtain ⟨e, he, hplace⟩ := Option.map_eq_some_iff.1 hreply
  obtain ⟨e', he', hplace'⟩ := Option.map_eq_some_iff.1 hnews
  rw [Prod.mk.injEq] at hplace hplace'
  refine ⟨?_, ?_, ?_, by decide +kernel⟩
  · have hread := (heffect [] room ⟨"$2"⟩ .personal .scope _ rfl).1 e he
    rwa [hplace.1, hplace.2] at hread
  · have hread := (heffect [_] room ⟨"$3"⟩ .shared .room _ rfl).1 e' he'
    rwa [hplace'.1, hplace'.2] at hread
  · exact (heffect [_, _] room ⟨"$4"⟩ .shared .scope _ rfl).2 hnever

end Tracker

end ReadTracking
