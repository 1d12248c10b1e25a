import ReadTracking.Proofs.Amendments
import ReadTracking.Proofs.Clearing
import ReadTracking.Proofs.Persistence
import ReadTracking.Proofs.Requests
import ReadTracking.Proofs.Rooms

/-!
# A forgotten room leaves no trace

When a room is forgotten, and the storage does not fail, a tracker has of that room what it has of a
room that it never heard of, and of every other room what it had before.  This rests on two
invariants of everything that can be reached: a message is of the room of its scope, and the
storage holds markers that it can tell apart by their rooms.
-/

set_option autoImplicit false

namespace ReadTracking

open Backing

/-! ## What is of a room, and what is not -/

section

variable {α β : Type} {room room' : RoomId}

theorem Table.filter_ne_filter_eq [KeyOrder α] (t : Table α β) (f : α → β → RoomId) :
    (t.filter fun k v => f k v != room).filter (fun k v => f k v == room) = .empty := by
  refine ext_get? fun k => Option.eq_none_iff_forall_ne_some.2 fun v hv => ?_
  simp only [get?_filter, Option.filter_eq_some_iff, bne_iff_ne, beq_iff_eq] at hv
  exact hv.1.2 hv.2

theorem Table.filter_ne_filter_eq_of_ne [KeyOrder α] (t : Table α β) (f : α → β → RoomId)
    (hne : room' ≠ room) : (t.filter fun k v => f k v != room).filter
      (fun k v => f k v == room') = t.filter fun k v => f k v == room' := by
  refine ext_get? fun k => Option.ext fun v => ?_
  simp only [get?_filter, Option.filter_eq_some_iff, bne_iff_ne, beq_iff_eq]
  exact ⟨fun hv => ⟨hv.1.1, hv.2⟩, fun hv => ⟨⟨hv.1, hv.2 ▸ hne⟩, hv.2⟩⟩

theorem filter_ne_filter_eq (o : Option α) (f : α → RoomId) :
    (o.filter fun x => f x != room).filter (fun x => f x == room) = none := by
  refine Option.eq_none_iff_forall_ne_some.2 fun x hx => ?_
  simp only [Option.filter_eq_some_iff, bne_iff_ne, beq_iff_eq] at hx
  exact hx.1.2 hx.2

theorem filter_ne_filter_eq_of_ne (o : Option α) (f : α → RoomId) (hne : room' ≠ room) :
    (o.filter fun x => f x != room).filter (fun x => f x == room') =
      o.filter fun x => f x == room' := by
  refine Option.ext fun x => ?_
  simp only [Option.filter_eq_some_iff, bne_iff_ne, beq_iff_eq]
  exact ⟨fun hx => ⟨hx.1.1, hx.2⟩, fun hx => ⟨⟨hx.1, hx.2 ▸ hne⟩, hx.2⟩⟩

end

/-! ## The storage of a book stays sound -/

section

variable {σ : Type} [Backing σ] [Clears σ]

structure MarkerBook.Storable (b : MarkerBook σ) : Prop where
  sound : Viewed.sound b.storage
  fits : ∀ {slot m}, b.marks.get? slot = some m → (Viewed.capacity σ).entry ⟨slot, m⟩

namespace MarkerBook.Storable

variable {b : MarkerBook σ} {u : Update} {us : List Update} {now : Nat}

theorem setMark (h : b.Storable) (hu : (Viewed.capacity σ).update u) (hnow : now < Sum64.bound)
    (v : Visibility) : (b.setMark v now u).Storable := by
  refine ⟨h.sound, fun {slot m} hm => ?_⟩
  by_cases hs : slot = ⟨u.scope, v⟩
  · subst hs
    cases hm.symm.trans (Table.get?_insert_self _ _ _)
    exact entry_entryOf hu (Viewed.clock hnow) v
  · exact h.fits ((Table.get?_insert_of_ne _ _ hs).symm.trans hm)

theorem setAll (h : b.Storable) (hus : ∀ u ∈ us, (Viewed.capacity σ).update u)
    (hnow : now < Sum64.bound) (v : Visibility) : (b.setAll v now us).1.Storable := by
  induction us generalizing b with
  | nil => exact h
  | cons u us ih =>
    have hrest : ∀ u ∈ us, (Viewed.capacity σ).update u :=
      fun u hu => hus u (List.mem_cons_of_mem _ hu)
    simp only [MarkerBook.setAll]
    split
    · exact ih h hrest
    · exact ih (h.setMark (hus u List.mem_cons_self) hnow v) hrest

theorem advance (h : b.Storable) (hu : (Viewed.capacity σ).update u) (hnow : now < Sum64.bound)
    (v : Visibility) : (b.advance u v now).1.Storable := by
  have hmark := h.setMark hu hnow v
  have hstore := Clears.store hmark.sound (entry_entryOf hu (Viewed.clock hnow) v)
  cases hs : b.isStale v u with
  | true =>
    rw [advance_of_isStale b hs]
    exact h
  | false =>
    simp only [MarkerBook.advance, hs, Bool.false_eq_true, if_false]
    split
    next s hcall =>
      rw [hcall] at hstore
      exact ⟨hstore, hmark.fits⟩
    next why s hcall =>
      rw [hcall] at hstore
      exact ⟨hstore, hmark.fits⟩

theorem advanceAll (h : b.Storable) (hus : ∀ u ∈ us, (Viewed.capacity σ).update u)
    (hnow : now < Sum64.bound) (v : Visibility) : (b.advanceAll us v now).1.Storable := by
  have hmarks := h.setAll hus hnow v
  have hentries : ∀ e ∈ (b.setAll v now us).2.map (entryOf v now),
      (Viewed.capacity σ).entry e := by
    intro e he
    obtain ⟨u, hu, rfl⟩ := List.mem_map.1 he
    exact entry_entryOf (hus u ((sublist_setAll v now us b).subset hu)) (Viewed.clock hnow) v
  have hstore := Clears.storeAll hmarks.sound hentries
  simp only [MarkerBook.advanceAll]
  split
  · exact hmarks
  · split
    next s hcall =>
      rw [hcall] at hstore
      have hbook : ({ (b.setAll v now us).1 with storage := s } : MarkerBook σ).Storable :=
        ⟨hstore, hmarks.fits⟩
      exact List.foldlRecOn _ _ hbook fun b hb u _ => ⟨hb.sound, hb.fits⟩
    next why s hcall =>
      rw [hcall] at hstore
      have hbook : ({ (b.setAll v now us).1 with storage := s } : MarkerBook σ).Storable :=
        ⟨hstore, hmarks.fits⟩
      exact List.foldlRecOn _ _ hbook fun b hb u _ => ⟨hb.sound, hb.fits⟩

theorem flushSlots (h : b.Storable) (slots : List Slot) : (flushSlots slots b).1.Storable := by
  induction slots generalizing b with
  | nil => exact h
  | cons slot slots ih =>
    simp only [MarkerBook.flushSlots]
    split
    next => exact ih h
    next m hm =>
      have hstore := Clears.store h.sound (h.fits hm)
      split
      next s hcall =>
        rw [hcall] at hstore
        exact ih ⟨hstore, h.fits⟩
      next why s hcall =>
        rw [hcall] at hstore
        split
        · exact ih ⟨hstore, h.fits⟩
        · exact ih ⟨hstore, h.fits⟩

theorem retried (h : b.Storable) : b.retried.Storable := by
  unfold MarkerBook.retried
  split
  · exact h
  · have hbook : ({ b with unflushed := .empty } : MarkerBook σ).Storable := ⟨h.sound, h.fits⟩
    rw [flush_fst]
    exact hbook.flushSlots _

theorem forget (h : b.Storable) (room : RoomId) : (b.forget room).1.Storable := by
  refine ⟨Clears.forget h.sound room, fun {slot m} hm => h.fits ?_⟩
  exact (Option.filter_eq_some_iff.1 ((Table.get?_filter _ _ _).symm.trans hm)).1

end MarkerBook.Storable

namespace Tracker

variable {t : Tracker σ}

theorem book_forget {σ : Type} [Backing σ] (t : Tracker σ) (room : RoomId) :
    (t.forget room).tracker.book = (t.book.forget room).1 := by
  unfold forget
  split
  next hcall => exact (congrArg Prod.fst hcall).symm
  next hcall => exact (congrArg Prod.fst hcall).symm

theorem storable_meet (h : t.book.Storable) (hc : t.chronicle.Within (Viewed.capacity σ))
    {m : Moment} (hm : m.Within (Viewed.capacity σ)) :
    (t.meet m).tracker.chronicle.Within (Viewed.capacity σ) ∧
      (t.meet m).tracker.book.Storable := by
  by_cases hf : ∃ room, m = .command (.forget room)
  · obtain ⟨room, rfl⟩ := hf
    show (t.forget room).tracker.chronicle.Within _ ∧ (t.forget room).tracker.book.Storable
    rw [chronicle_forget, book_forget]
    exact ⟨hc.forget room, h.forget room⟩
  · -- Any other moment leaves the tracker linked to itself by the law.
    have hlink : MarkerBook.Link (Viewed.capacity σ)
        fun b b' : MarkerBook σ => b' = b ∧ b.Storable := {
      marks := fun h => by rw [h.1]
      advance := fun h hu hnow v => ⟨by rw [h.1], h.2.advance hu hnow v⟩
      advanceAll := fun h hus hnow v => ⟨by rw [h.1], h.2.advanceAll hus hnow v⟩
      retried := fun h => ⟨by rw [h.1], h.2.retried⟩
      forget := fun h _ _ _ _ _ _ => ⟨by rw [h.1], h.2.forget _⟩ }
    have hself : t.Linked (Viewed.capacity σ) (fun b b' => b' = b ∧ b.Storable) t :=
      ⟨rfl, rfl, rfl, rfl, hc, ⟨rfl, h⟩, rfl, rfl, rfl, rfl, rfl, rfl⟩
    have hs : ¬ (t.meet m).StorageFailed := fun hs => hf (forget_of_storageFailed hs)
    have hr : m.ForgetsWithin (Viewed.capacity σ) := fun room e => absurd ⟨room, e⟩ hf
    have hmeet := (hself.meet hlink hm hr hs hs).tracker
    exact ⟨hmeet.within, hmeet.book.2⟩

theorem storable_of_openOver {ambient : Ambient} {policy : Policy} {reader : UserId} {s : σ}
    (hs : Viewed.sound s) (ht : (openOver ambient policy reader s).1 = .ok t) :
    t.chronicle.Within (Viewed.capacity σ) ∧ t.book.Storable := by
  obtain ⟨book, rfl, hbook⟩ := eq_fresh_of_openOver ht
  refine ⟨Chronicle.within_empty _ _, ?_⟩
  show book.Storable
  unfold MarkerBook.openOver at hbook
  split at hbook
  next es s' hlist =>
    cases hbook
    obtain ⟨hsound, hc, hm⟩ := Viewed.list_ok hs hlist
    refine ⟨hsound, fun {slot m} hget => Viewed.fits hs ?_⟩
    exact (congrArg (Table.get? · slot) hm).symm.trans hget
  next => cases hbook

/-- The storage of every tracker that can be reached is sound. -/
theorem sound_storage_after {ambient : Ambient} {policy : Policy} {reader : UserId} {s : σ}
    (hs : Viewed.sound s) (ht : (openOver ambient policy reader s).1 = .ok t) {ms : List Moment}
    (hms : ∀ m ∈ ms, m.Within (Viewed.capacity σ)) : Viewed.sound (t.after ms).book.storage := by
  have h : (t.after ms).chronicle.Within (Viewed.capacity σ) ∧ (t.after ms).book.Storable :=
    after_keeps (P := fun u => u.chronicle.Within (Viewed.capacity σ) ∧ u.book.Storable)
      (storable_of_openOver hs ht) fun m hm u hu => storable_meet hu.2 hu.1 (hms m hm)
  exact h.2.sound

end Tracker

end

/-! ## What a tracker has of a room -/

structure Dossier where
  log : Option RoomLog
  messages : Table EventId Indexed
  marks : Table Slot Mark
  unflushed : Table Slot Unit
  sends : Table Slot Queued
  held : Table EventId Held
  reported : Option RoomState
  focus : Option Focus
  awaited : Option Awaited
  deriving DecidableEq, Inhabited

def Dossier.blank : Dossier :=
  ⟨none, .empty, .empty, .empty, .empty, .empty, none, none, none⟩

def Dossier.emptied (d : Dossier) : Dossier :=
  { d with log := none, messages := .empty, marks := .empty, unflushed := .empty }

namespace Tracker

variable {σ : Type}

def about (t : Tracker σ) (room : RoomId) : Dossier where
  log := t.chronicle.rooms.get? room
  messages := t.chronicle.events.filter fun _ e => e.message.room == room
  marks := t.book.marks.filter fun slot _ => slot.scope.room == room
  unflushed := t.book.unflushed.filter fun slot _ => slot.scope.room == room
  sends := t.sends.pending.filter fun slot _ => slot.scope.room == room
  held := t.held.filter fun _ h => h.room == room
  reported := t.reported.get? room
  focus := t.focus.filter fun f => f.room == room
  awaited := t.awaited.filter fun a => a.room == room

end Tracker

namespace Chronicle

variable {c : Chronicle}

theorem rooms_forget_self (c : Chronicle) (room : RoomId) :
    (c.forget room).1.rooms.get? room = none := by
  unfold forget
  split
  next => exact Table.get?_erase_self _ _
  next h => exact Table.contains_eq_false_iff.1 (Bool.not_eq_true _ ▸ h)

theorem Sound.events_forget (hc : c.Sound) (room : RoomId) :
    (c.forget room).1.events = c.events.filter fun _ e => e.message.room != room := by
  refine Table.ext_get? fun id => ?_
  rw [Table.get?_filter]
  exact hc.get?_forget room id

theorem Sound.get?_forget_of_room (hc : c.Sound) {room : RoomId} {id : EventId} {e : Indexed}
    (he : c.get? id = some e) (hr : e.message.room = room) :
    (c.forget room).1.get? id = none := by
  rw [hc.get?_forget, he, Option.filter_some, hr, bne_self_eq_false]
  rfl

/-- The names of forgotten messages are free again. -/
theorem Sound.append_forget (hc : c.Sound) {room : RoomId} {m : Message} {e : Indexed}
    (he : c.get? m.id = some e) (hr : e.message.room = room) :
    ((c.forget room).1.append m).2 = some ((c.forget room).1.placing m) := by
  rw [append_eq (hc.get?_forget_of_room he hr)]

end Chronicle

/-! ## Forgetting -/

/-- An answer has taken a room out of a tracker, and has changed nothing else. -/
structure Answer.TakesOut {σ : Type} (a : Answer σ) (t : Tracker σ) (room : RoomId) : Prop where
  blank : a.tracker.about room = .blank
  unread : a.tracker.roomState room = .empty room
  others : ∀ room', room' ≠ room → a.tracker.about room' = t.about room'
  ambient : a.tracker.ambient = t.ambient
  policy : a.tracker.policy = t.policy
  reader : a.tracker.reader = t.reader
  listeners : a.tracker.listeners = t.listeners
  notices : a.notices = []
  reply : a.reply = .ok []
  anew : ∀ m e, t.chronicle.get? m.id = some e → e.message.room = room →
    (a.tracker.chronicle.append m).2 = some (a.tracker.chronicle.placing m)

namespace Tracker

variable {σ : Type} [Backing σ] {t : Tracker σ} {room : RoomId}

theorem forget_eq (h : (t.forget room).Accepted) : t.forget room =
    ({ tracker := { t with
        chronicle := (t.chronicle.forget room).1
        book := (t.book.forget room).1
        sends := t.sends.forget room
        reported := t.reported.erase room
        held := t.held.filter fun _ h => h.room != room
        focus := t.focus.filter fun f => f.room != room
        awaited := t.awaited.filter fun a => a.room != room } } : Turn σ).done := by
  obtain ⟨n, hn⟩ := accepted_forget.1 h
  unfold forget
  split
  next hcall =>
    rw [hcall] at hn
    cases hn
  next hcall => rw [hcall]

def dropped (t : Tracker σ) (room : RoomId) : Tracker σ :=
  { t with chronicle := (t.chronicle.forget room).1, book := (t.book.forget room).1 }

theorem about_dropped_self (hc : t.chronicle.Sound) (room : RoomId) :
    (t.dropped room).about room = (t.about room).emptied := by
  have hslots : ∀ {β : Type} (table : Table Slot β),
      (table.filter fun slot _ => slot.scope.room != room).filter
        (fun slot _ => slot.scope.room == room) = .empty :=
    fun table => table.filter_ne_filter_eq fun slot _ => slot.scope.room
  unfold about Dossier.emptied
  congr 1
  · exact t.chronicle.rooms_forget_self room
  · show (t.chronicle.forget room).1.events.filter _ = _
    rw [hc.events_forget]
    exact t.chronicle.events.filter_ne_filter_eq fun _ e => e.message.room
  · exact hslots t.book.marks
  · exact hslots t.book.unflushed

theorem about_dropped_of_ne (hc : t.chronicle.Sound) {room' : RoomId} (hne : room' ≠ room) :
    (t.dropped room).about room' = t.about room' := by
  have hslots : ∀ {β : Type} (table : Table Slot β),
      (table.filter fun slot _ => slot.scope.room != room).filter
        (fun slot _ => slot.scope.room == room') =
          table.filter fun slot _ => slot.scope.room == room' :=
    fun table => table.filter_ne_filter_eq_of_ne (fun slot _ => slot.scope.room) hne
  unfold about
  congr 1
  · exact Chronicle.rooms_forget hne
  · show (t.chronicle.forget room).1.events.filter _ = _
    rw [hc.events_forget]
    exact t.chronicle.events.filter_ne_filter_eq_of_ne (fun _ e => e.message.room) hne
  · exact hslots t.book.marks
  · exact hslots t.book.unflushed

theorem about_forget_self (hc : t.chronicle.Sound) (h : (t.forget room).Accepted) :
    (t.forget room).tracker.about room = .blank := by
  have hdropped := about_dropped_self hc room
  rw [forget_eq h]
  unfold about Dossier.blank
  congr 1
  · exact congrArg Dossier.log hdropped
  · exact congrArg Dossier.messages hdropped
  · exact congrArg Dossier.marks hdropped
  · exact congrArg Dossier.unflushed hdropped
  · exact t.sends.pending.filter_ne_filter_eq fun slot _ => slot.scope.room
  · exact t.held.filter_ne_filter_eq fun _ h => h.room
  · exact Table.get?_erase_self _ _
  · exact filter_ne_filter_eq t.focus Focus.room
  · exact filter_ne_filter_eq t.awaited Awaited.room

theorem about_forget_of_ne (hc : t.chronicle.Sound) (h : (t.forget room).Accepted)
    {room' : RoomId} (hne : room' ≠ room) :
    (t.forget room).tracker.about room' = t.about room' := by
  have hdropped := about_dropped_of_ne hc hne
  rw [forget_eq h]
  unfold about
  congr 1
  · exact congrArg Dossier.log hdropped
  · exact congrArg Dossier.messages hdropped
  · exact congrArg Dossier.marks hdropped
  · exact congrArg Dossier.unflushed hdropped
  · exact t.sends.pending.filter_ne_filter_eq_of_ne (fun slot _ => slot.scope.room) hne
  · exact t.held.filter_ne_filter_eq_of_ne (fun _ h => h.room) hne
  · exact Table.get?_erase_of_ne _ hne
  · exact filter_ne_filter_eq_of_ne t.focus Focus.room hne
  · exact filter_ne_filter_eq_of_ne t.awaited Awaited.room hne

theorem takesOut_forget (hc : t.chronicle.Sound) (h : (t.forget room).Accepted) :
    (t.forget room).TakesOut t room where
  blank := about_forget_self hc h
  unread := AtHome.roomState_forget_self t room
  others _ hne := about_forget_of_ne hc h hne
  ambient := by rw [forget_eq h]; rfl
  policy := by rw [forget_eq h]; rfl
  reader := by rw [forget_eq h]; rfl
  listeners := by rw [forget_eq h]; rfl
  notices := by rw [forget_eq h]; rfl
  reply := by rw [forget_eq h]; rfl
  anew m e he hr := by
    rw [chronicle_forget]
    exact hc.append_forget he hr

theorem about_of_openOver {ambient : Ambient} {policy : Policy} {reader : UserId} {s : σ}
    (hs : (Backing.list s).1 = .ok []) (ht : (openOver ambient policy reader s).1 = .ok t) :
    t.about room = .blank ∧ t.roomState room = .empty room := by
  obtain ⟨book, rfl, hbook⟩ := eq_fresh_of_openOver ht
  have hempty : book.marks = .empty ∧ book.unflushed = .empty := by
    unfold MarkerBook.openOver at hbook
    split at hbook
    next es s' hlist =>
      rw [hlist] at hs
      cases hs
      cases hbook
      exact ⟨rfl, rfl⟩
    next => cases hbook
  refine ⟨?_, Chronicle.roomState_of_log_empty rfl⟩
  simp only [about, fresh, hempty]
  rfl

/-- A room that was forgotten is to a tracker as every room is to a tracker that was just opened
over an empty storage.  All other rooms are as they were, in memory and in the storage, nobody is
told, and the messages of the room may come again. -/
theorem forgetting_leaves_no_trace {ambient : Ambient} {policy : Policy} {reader : UserId} {s : σ}
    (ht : (openOver ambient policy reader s).1 = .ok t) {ms : List Moment}
    (hok : ((t.after ms).forget room).Accepted) :
    ((t.after ms).forget room).TakesOut (t.after ms) room ∧
    (∀ {τ : Type} [Backing τ] {ambient' : Ambient} {policy' : Policy} {reader' : UserId} {s' : τ}
      {t' : Tracker τ}, (Backing.list s').1 = .ok [] →
      (openOver ambient' policy' reader' s').1 = .ok t' →
      ((t.after ms).forget room).tracker.about room = t'.about room ∧
        ((t.after ms).forget room).tracker.roomState room = t'.roomState room) ∧
    ∀ [Clears σ], Viewed.sound s → (∀ m ∈ ms, m.Within (Viewed.capacity σ)) →
      (Viewed.capacity σ).room room →
      Viewed.contents ((t.after ms).forget room).tracker.book.storage =
        (Viewed.contents (t.after ms).book.storage).without room := by
  have hsound : (t.after ms).chronicle.Sound := by
    obtain ⟨book, rfl, -⟩ := eq_fresh_of_openOver ht
    exact sound_after (Chronicle.sound_empty _) ms
  have htaken := takesOut_forget hsound hok
  refine ⟨htaken, ?_, fun hs hms hroom => ?_⟩
  · intro τ _ ambient' policy' reader' s' t' hs' ht'
    obtain ⟨habout, hstate⟩ : t'.about room = .blank ∧ t'.roomState room = .empty room :=
      about_of_openOver hs' ht'
    exact ⟨htaken.blank.trans habout.symm, htaken.unread.trans hstate.symm⟩
  · obtain ⟨n, hn⟩ := accepted_forget.1 hok
    rw [book_forget]
    exact (Viewed.forget_ok (sound_storage_after hs ht hms) hroom (Prod.ext hn rfl)).2

/-- Two rooms are read of which one name begins the other.  In the first there are a thread, a gap,
a receipt that waits for its message, and a jump under way. -/
def twoRooms : List Moment :=
  let ab : RoomId := ⟨"!ab"⟩
  let abc : RoomId := ⟨"!abc"⟩
  let post (room : RoomId) (id : String) (q : Nat) (content : Content) : Message :=
    ⟨⟨id⟩, room, ⟨"@bot"⟩, q, content, false⟩
  [.command (.receive ab [post ab "$1" 1 .plain, post ab "$2" 2 (.threadReply ⟨"$1"⟩)] true),
    .command (.receive abc [post abc "$3" 3 .plain] false),
    .command (.markRoomRead ab),
    .command (.markRoomRead abc),
    .command (.receipt ab ⟨"@me"⟩ ⟨"$9"⟩ .shared .scope),
    .command (.jump ab ⟨"$8"⟩ false)]

theorem forgetting_leaves_no_trace_beside_a_longer_name :
    let ab : RoomId := ⟨"!ab"⟩
    let t := fresh .counting { debounce := 500000000 } ⟨"@me"⟩ ⟨ByteTable.empty, .empty, .empty⟩
    let a := (t.after twoRooms).forget ab
    a.TakesOut (t.after twoRooms) ab ∧ a.tracker.about ab = t.about ab ∧
      a.tracker.book.storage.markers = (t.after twoRooms).book.storage.markers.without ab ∧
      ((t.after twoRooms).book.storage.markers.size, a.tracker.book.storage.markers.size) = (3, 1) ∧
      ((t.after twoRooms).sends.size, a.tracker.sends.size) = (3, 1) := by
  intro ab t a
  have ht : (openOver .counting { debounce := 500000000 } ⟨"@me"⟩ ByteTable.empty).1 = .ok t := rfl
  have hok : a.Accepted := ⟨[], rfl⟩
  have hab : ab.Fits := by decide
  have habc : (⟨"!abc"⟩ : RoomId).Fits := by decide
  have hevent : ∀ id ∈ ["$1", "$2", "$3"], ByteTable.capacity.event ⟨id⟩ := by
    show ∀ id ∈ ["$1", "$2", "$3"], (utf8 id).length < Cbor.headBound
    decide
  have hnumber : ∀ q ∈ [1, 2, 3], ByteTable.capacity.number q := by
    show ∀ q ∈ [1, 2, 3], q < Cbor.headBound
    decide
  have hplain : ∀ root : EventId, Content.plain = .threadReply root →
      ByteTable.capacity.event root := nofun
  have hroot : ∀ root : EventId, Content.threadReply ⟨"$1"⟩ = .threadReply root →
      ByteTable.capacity.event root := by
    rintro root ⟨⟩
    exact hevent _ (by simp)
  have hms : ∀ m ∈ twoRooms, m.Within ByteTable.capacity := by
    simp only [twoRooms, List.forall_mem_cons, Moment.Within, Moment.messages, Command.messages,
      List.not_mem_nil, false_implies, implies_true, and_true]
    exact ⟨⟨⟨hab, hevent _ (by simp), hnumber _ (by simp), hplain⟩,
      hab, hevent _ (by simp), hnumber _ (by simp), hroot⟩,
      habc, hevent _ (by simp), hnumber _ (by simp), hplain⟩
  obtain ⟨htaken, hopened, hstored⟩ := forgetting_leaves_no_trace ht hok
  exact ⟨htaken, (hopened rfl ht).1, hstored ⟨.empty, ByteTable.holds_empty⟩ hms hab,
    by decide, by decide⟩

end Tracker

end ReadTracking
