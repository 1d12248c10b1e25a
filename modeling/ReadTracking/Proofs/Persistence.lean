import ReadTracking.Proofs.ByteTableLaws
import ReadTracking.Proofs.Linked
import ReadTracking.Proofs.WriteThrough

/-!
# Persistence over a whole course

A tracker over a lawful storage is linked to itself by the law that its book is written through,
so the law holds after every course in which each room that is to be forgotten can be.  To speak
of the answers of the storage as well, a recorded storage keeps the answer of each of its writes;
the recording changes nothing else, and it is itself a lawful storage whose record holds no
refusal to move a marker back.
-/

set_option autoImplicit false

namespace ReadTracking

open Backing

structure Recorded (σ : Type) where
  inner : σ
  writes : List (Except StorageError Unit)
  deriving DecidableEq, Inhabited

def Refused : Except StorageError Unit → Prop
  | .error why => why.isRegression = true
  | .ok () => False

instance (answer : Except StorageError Unit) : Decidable (Refused answer) := by
  unfold Refused
  split <;> infer_instance

namespace Recorded

variable {σ α : Type}

def around (inner : σ) : Recorded σ := ⟨inner, []⟩

def call (act : σ → Called α σ) (r : Recorded σ) : Called α (Recorded σ) :=
  let (answer, inner) := act r.inner
  (answer, { r with inner })

def write (act : σ → Called Unit σ) (r : Recorded σ) : Called Unit (Recorded σ) :=
  let (answer, inner) := act r.inner
  (answer, ⟨inner, r.writes ++ [answer]⟩)

instance [Backing σ] : Backing (Recorded σ) where
  store e := write (Backing.store e)
  storeAll es := write (Backing.storeAll es)
  load slot := call (Backing.load slot)
  loadRoom room := call (Backing.loadRoom room)
  list := call Backing.list
  forget room := call (Backing.forget room)

theorem call_eq {act : σ → Called α σ} {r r' : Recorded σ} {answer : Except StorageError α}
    (h : call act r = (answer, r')) :
    act r.inner = (answer, r'.inner) ∧ r'.writes = r.writes := by
  cases h
  exact ⟨rfl, rfl⟩

theorem write_eq {act : σ → Called Unit σ} {r r' : Recorded σ}
    {answer : Except StorageError Unit} (h : write act r = (answer, r')) :
    act r.inner = (answer, r'.inner) ∧ r'.writes = r.writes ++ [answer] := by
  cases h
  exact ⟨rfl, rfl⟩

theorem store_eq [Backing σ] (e : Entry) (r : Recorded σ) :
    Backing.store e r = ((Backing.store e r.inner).1,
      ⟨(Backing.store e r.inner).2, r.writes ++ [(Backing.store e r.inner).1]⟩) :=
  rfl

theorem storeAll_eq [Backing σ] (es : List Entry) (r : Recorded σ) :
    Backing.storeAll es r = ((Backing.storeAll es r.inner).1,
      ⟨(Backing.storeAll es r.inner).2, r.writes ++ [(Backing.storeAll es r.inner).1]⟩) :=
  rfl

theorem not_refused_append {answers : List (Except StorageError Unit)}
    {answer : Except StorageError Unit} (h : ∀ a ∈ answers, ¬ Refused a) (ha : ¬ Refused answer) :
    ∀ a ∈ answers ++ [answer], ¬ Refused a := by
  intro a hm
  rcases List.mem_append.1 hm with hm | hm
  · exact h a hm
  · exact List.mem_singleton.1 hm ▸ ha

variable [Backing σ]

instance [Viewed σ] : Viewed (Recorded σ) where
  capacity := Viewed.capacity σ
  sound r := Viewed.sound r.inner ∧ ∀ answer ∈ r.writes, ¬ Refused answer
  contents r := Viewed.contents r.inner
  clock := Viewed.clock
  fits hs := Viewed.fits hs.1
  list_ok hs h := by
    obtain ⟨h, hw⟩ := call_eq h
    obtain ⟨hs', hc⟩ := Viewed.list_ok hs.1 h
    exact ⟨⟨hs', hw ▸ hs.2⟩, hc⟩
  forget_ok hs hroom h := by
    obtain ⟨h, hw⟩ := call_eq h
    obtain ⟨hs', hc⟩ := Viewed.forget_ok hs.1 hroom h
    exact ⟨⟨hs', hw ▸ hs.2⟩, hc⟩

theorem not_refused_of_isRegression {why : StorageError} (h : why.isRegression = false) :
    ¬ Refused (.error why) := by
  intro hr
  exact Bool.false_ne_true (h.symm.trans hr)

instance [Lawful σ] : Lawful (Recorded σ) where
  store := {
    ok := by
      intro r e r' hs he hb h
      obtain ⟨h, hw⟩ := write_eq h
      obtain ⟨hs', hc⟩ := Lawful.store.ok hs.1 he hb h
      exact ⟨⟨hs', hw ▸ not_refused_append hs.2 id⟩, hc⟩
    error := by
      intro r e why r' hs he hb h
      obtain ⟨h, hw⟩ := write_eq h
      obtain ⟨hs', hc, hwhy⟩ := Lawful.store.error hs.1 he hb h
      have hn := not_refused_of_isRegression hwhy
      exact ⟨⟨hs', hw ▸ not_refused_append hs.2 hn⟩, hc, hwhy⟩ }
  storeAll_ok hs he hb h := by
    obtain ⟨h, hw⟩ := write_eq h
    obtain ⟨hs', hc⟩ := Lawful.storeAll_ok hs.1 he hb h
    exact ⟨⟨hs', hw ▸ not_refused_append hs.2 id⟩, hc⟩
  storeAll_error {r es why r'} hs he hb h := by
    obtain ⟨h, hw⟩ := write_eq h
    obtain ⟨hs', hwhy, hc⟩ := Lawful.storeAll_error hs.1 he hb h
    have hn := not_refused_of_isRegression hwhy
    exact ⟨⟨hs', hw ▸ not_refused_append hs.2 hn⟩, hwhy, hc⟩

end Recorded

/-! ## The recording changes nothing -/

namespace MarkerBook

variable {σ : Type}

def unrecorded (b : MarkerBook (Recorded σ)) : MarkerBook σ :=
  { storage := b.storage.inner, marks := b.marks, unflushed := b.unflushed }

theorem unrecorded_setAll (v : Visibility) (now : Nat) (us : List Update)
    (b : MarkerBook (Recorded σ)) :
    b.unrecorded.setAll v now us =
      ((b.setAll v now us).1.unrecorded, (b.setAll v now us).2) := by
  induction us generalizing b with
  | nil => rfl
  | cons u us ih =>
    have hs : b.unrecorded.isStale v u = b.isStale v u := rfl
    simp only [setAll, hs]
    split
    · exact ih b
    · have := ih (b.setMark v now u)
      exact congrArg (fun p : MarkerBook σ × List Update => (p.1, u :: p.2)) this

theorem unrecorded_foldl {f : MarkerBook (Recorded σ) → Update → MarkerBook (Recorded σ)}
    {g : MarkerBook σ → Update → MarkerBook σ}
    (hfg : ∀ b u, (f b u).unrecorded = g b.unrecorded u) (us : List Update)
    (b : MarkerBook (Recorded σ)) :
    (us.foldl f b).unrecorded = us.foldl g b.unrecorded := by
  induction us generalizing b with
  | nil => rfl
  | cons u us ih => rw [List.foldl_cons, List.foldl_cons, ih, hfg]

variable [Backing σ]

theorem unrecorded_advance (b : MarkerBook (Recorded σ)) (u : Update) (v : Visibility)
    (now : Nat) :
    (b.advance u v now).1.unrecorded = (b.unrecorded.advance u v now).1 := by
  have hs : b.unrecorded.isStale v u = b.isStale v u := rfl
  have hi : (b.unrecorded.setMark v now u).storage = b.storage.inner := rfl
  have ho : (b.setMark v now u).storage = b.storage := rfl
  simp only [advance, hs, hi, ho, Recorded.store_eq]
  split
  · rfl
  · obtain ⟨answer, s⟩ := Backing.store (entryOf v now u) b.storage.inner
    cases answer <;> rfl

theorem unrecorded_advanceAll (b : MarkerBook (Recorded σ)) (us : List Update) (v : Visibility)
    (now : Nat) :
    (b.advanceAll us v now).1.unrecorded = (b.unrecorded.advanceAll us v now).1 := by
  simp only [advanceAll, unrecorded_setAll]
  generalize (b.setAll v now us).1 = b₁
  generalize (b.setAll v now us).2 = moved
  have hi : b₁.unrecorded.storage = b₁.storage.inner := rfl
  simp only [hi, Recorded.storeAll_eq]
  split
  · rfl
  · obtain ⟨answer, s⟩ := Backing.storeAll (moved.map (entryOf v now)) b₁.storage.inner
    cases answer with
    | ok _ => exact unrecorded_foldl (fun _ _ => rfl) moved _
    | error why => exact unrecorded_foldl (fun _ _ => rfl) moved _

theorem unrecorded_flushSlots (slots : List Slot) (b : MarkerBook (Recorded σ)) :
    (flushSlots slots b).1.unrecorded = (flushSlots slots b.unrecorded).1 ∧
      (flushSlots slots b).2 = (flushSlots slots b.unrecorded).2 := by
  induction slots generalizing b with
  | nil => exact ⟨rfl, rfl⟩
  | cons slot slots ih =>
    have hm : b.unrecorded.marks = b.marks := rfl
    have hi : b.unrecorded.storage = b.storage.inner := rfl
    simp only [flushSlots, hm, hi, Recorded.store_eq]
    split
    · exact ih b
    next m _ =>
      obtain ⟨answer, s⟩ := Backing.store (⟨slot, m⟩ : Entry) b.storage.inner
      cases answer with
      | ok _ =>
        obtain ⟨h, h'⟩ := ih { b with storage := ⟨s, b.storage.writes ++ [.ok ()]⟩ }
        exact ⟨h, congrArg (fun p : Nat × Option StorageError => (p.1 + 1, p.2)) h'⟩
      | error why =>
        dsimp only
        split
        · obtain ⟨h, h'⟩ := ih { b with storage := ⟨s, b.storage.writes ++ [.error why]⟩ }
          exact ⟨h, congrArg (fun p : Nat × Option StorageError => (p.1 + 1, p.2)) h'⟩
        · obtain ⟨h, h'⟩ := ih (({ b with
              storage := ⟨s, b.storage.writes ++ [.error why]⟩ } :
                MarkerBook (Recorded σ)).defer slot)
          exact ⟨h, congrArg (fun p : Nat × Option StorageError => (p.1, some why)) h'⟩

theorem unrecorded_retried (b : MarkerBook (Recorded σ)) :
    b.retried.unrecorded = b.unrecorded.retried := by
  have hu : b.unrecorded.unflushed = b.unflushed := rfl
  simp only [retried, flush_fst, hu]
  split
  · rfl
  · exact (unrecorded_flushSlots b.unflushed.keys { b with unflushed := .empty }).1

theorem unrecorded_forget (b : MarkerBook (Recorded σ)) (room : RoomId) :
    b.unrecorded.forget room = ((b.forget room).1.unrecorded, (b.forget room).2) :=
  rfl

def Unrecords (b : MarkerBook (Recorded σ)) (b' : MarkerBook σ) : Prop := b' = b.unrecorded

theorem link_unrecords (K : Capacity) : Link K (@Unrecords σ) where
  marks h := by
    rw [h]
    rfl
  advance {b b' u now} h _ _ v := by
    rw [h]
    exact (unrecorded_advance b u v now).symm
  advanceAll {b b' us now} h _ _ v := by
    rw [h]
    exact (unrecorded_advanceAll b us v now).symm
  retried {b b'} h := by
    rw [h]
    exact (unrecorded_retried b).symm
  forget h room n n' _ _ _ := by
    rw [h]
    rfl

/-! ## The law as a link -/

def KeepsUp [Lawful σ] (b b' : MarkerBook σ) : Prop := b' = b ∧ b.WrittenThrough []

structure Persisted [Lawful σ] (b : MarkerBook σ) : Prop where
  behind : Behind (Viewed.contents b.storage) b.marks
  stored : ∀ {slot}, b.unflushed.contains slot = false →
    (Viewed.contents b.storage).get? slot = b.marks.get? slot
  waiting : ∀ {slot}, b.unflushed.contains slot = true → b.marks.contains slot = true

theorem WrittenThrough.persisted [Lawful σ] {b : MarkerBook σ} (h : b.WrittenThrough []) :
    b.Persisted where
  behind := h.behind
  stored {slot} hn := by
    have hn := Table.contains_eq_false_iff.1 hn
    cases hm : b.marks.get? slot with
    | some m => exact h.flushed hm hn List.not_mem_nil
    | none =>
      cases hc : (Viewed.contents b.storage).get? slot with
      | none => rfl
      | some m =>
        obtain ⟨m', hm', -⟩ := h.behind _ _ hc
        rw [hm] at hm'
        cases hm'
  waiting := h.waiting

theorem Persisted.contents_eq [Lawful σ] {b : MarkerBook σ} (h : b.Persisted)
    (hu : b.unflushed.size = 0) : Viewed.contents b.storage = b.marks := by
  refine Table.ext_get? fun slot => h.stored ?_
  exact Table.contains_eq_false_iff.2 (Table.size_eq_zero_iff.1 hu slot)

theorem link_keepsUp [Lawful σ] : Link (Viewed.capacity σ) (@KeepsUp σ _ _) :=
  link_of_kept (fun h hu hnow v => h.advance hu hnow v)
    (fun h hus hnow v => h.advanceAll hus hnow v) (fun h => h.retried)
    fun h hroom hok => h.forget hroom hok

end MarkerBook

namespace Tracker

variable {σ : Type} [Backing σ]

theorem writtenThrough_after [Lawful σ] {t : Tracker σ} (hw : t.book.WrittenThrough [])
    (hc : t.chronicle.Within (Viewed.capacity σ)) {ms : List Moment}
    (hms : ∀ m ∈ ms, m.Within (Viewed.capacity σ))
    (hrs : ∀ m ∈ ms, m.ForgetsWithin (Viewed.capacity σ))
    (hf : ∀ a ∈ t.answers ms, ¬ a.StorageFailed) : (t.after ms).book.WrittenThrough [] := by
  have h : t.Linked (Viewed.capacity σ) MarkerBook.KeepsUp t :=
    ⟨rfl, rfl, rfl, rfl, hc, ⟨rfl, hw⟩, rfl, rfl, rfl, rfl, rfl, rfl⟩
  exact (h.run MarkerBook.link_keepsUp hms hrs hf hf).2.book.2

theorem Linked.storageFailed_of_unrecords {K : Capacity} {t : Tracker (Recorded σ)}
    {t' : Tracker σ} (h : t.Linked K MarkerBook.Unrecords t') {m : Moment}
    (hm : (t.meet m).StorageFailed) : (t'.meet m).StorageFailed := by
  obtain ⟨room, rfl⟩ := forget_of_storageFailed hm
  have hb : (t'.book.forget room).2 = (t.book.forget room).2 := by
    rw [h.book, MarkerBook.unrecorded_forget]
  simp only [Tracker.meet, Tracker.handle, Tracker.forget] at hm ⊢
  split at hm
  next b why hwhy =>
    rw [hwhy] at hb
    split
    next => exact ⟨_, rfl⟩
    next hok =>
      rw [hok] at hb
      cases hb
  next =>
    obtain ⟨why, hwhy⟩ := hm
    cases hwhy

theorem Linked.answers_of_unrecords {K : Capacity} {t : Tracker (Recorded σ)} {t' : Tracker σ}
    (h : t.Linked K MarkerBook.Unrecords t') {ms : List Moment} (hms : ∀ m ∈ ms, m.Within K)
    (hrs : ∀ m ∈ ms, m.ForgetsWithin K) (hf : ∀ a ∈ t'.answers ms, ¬ a.StorageFailed) :
    ∀ a ∈ t.answers ms, ¬ a.StorageFailed := by
  induction ms generalizing t t' with
  | nil =>
    intro a ha
    cases ha
  | cons m ms ih =>
    have hm' : ¬ (t'.meet m).StorageFailed := hf _ List.mem_cons_self
    have hm : ¬ (t.meet m).StorageFailed := fun hs => hm' (h.storageFailed_of_unrecords hs)
    have hl := h.meet (MarkerBook.link_unrecords K) (hms m List.mem_cons_self)
      (hrs m List.mem_cons_self) hm hm'
    intro a ha
    rcases List.mem_cons.1 ha with rfl | ha
    · exact hm
    · exact ih hl.tracker (fun m hm => hms m (List.mem_cons_of_mem _ hm))
        (fun m hm => hrs m (List.mem_cons_of_mem _ hm))
        (fun a ha => hf a (List.mem_cons_of_mem _ ha)) a ha

theorem writtenThrough_of_openOver [Lawful σ] {ambient : Ambient} {policy : Policy}
    {reader : UserId} {s : σ} {t : Tracker σ} (hs : Viewed.sound s)
    (ht : (openOver ambient policy reader s).1 = .ok t) : t.book.WrittenThrough [] := by
  simp only [openOver] at ht
  split at ht
  next hb =>
    cases ht
    exact MarkerBook.writtenThrough_of_openOver hs (congrArg Prod.fst hb)
  next => cases ht

/-- A tracker can be opened over a recorded storage where one can be opened over the storage. -/
theorem linked_of_openOver_around (K : Capacity) {ambient : Ambient} {policy : Policy}
    {reader : UserId} {s : σ} {t : Tracker σ}
    (ht : (openOver ambient policy reader s).1 = .ok t) :
    ∃ t' : Tracker (Recorded σ), (openOver ambient policy reader (Recorded.around s)).1 = .ok t' ∧
      t'.Linked K MarkerBook.Unrecords t := by
  have hl : Backing.list (Recorded.around s) =
      ((Backing.list s).1, ⟨(Backing.list s).2, []⟩) := rfl
  simp only [openOver, MarkerBook.openOver, hl] at ht ⊢
  generalize Backing.list s = o at ht ⊢
  obtain ⟨answer, s'⟩ := o
  cases answer with
  | error why => cases ht
  | ok es =>
    cases ht
    refine ⟨_, rfl, ?_⟩
    exact ⟨rfl, rfl, rfl, rfl, Chronicle.within_empty _ _, rfl, rfl, rfl, rfl, rfl, rfl, rfl⟩

/-- Over a lawful storage that nobody else writes to, and whatever calls of it fail, the storage
never has a marker that is further than the one of the book, what does not wait for a write is
stored as the book has it, and what waits has a marker.  No write is refused as one that moves a
marker back. -/
theorem markers_written_through [Lawful σ] {ambient : Ambient} {policy : Policy}
    {reader : UserId} {s : σ} (hs : Viewed.sound s) {t : Tracker σ}
    (ht : (openOver ambient policy reader s).1 = .ok t) {ms : List Moment}
    (hms : ∀ m ∈ ms, m.Within (Viewed.capacity σ))
    (hrs : ∀ m ∈ ms, m.ForgetsWithin (Viewed.capacity σ))
    (hf : ∀ a ∈ t.answers ms, ¬ a.StorageFailed) :
    (t.after ms).book.Persisted ∧
      ((t.after ms).book.unflushed.size = 0 →
        Viewed.contents (t.after ms).book.storage = (t.after ms).book.marks) ∧
      ∃ t' : Tracker (Recorded σ),
        (openOver ambient policy reader (Recorded.around s)).1 = .ok t' ∧
        (t'.after ms).book.unrecorded = (t.after ms).book ∧
        ∀ answer ∈ (t'.after ms).book.storage.writes, ¬ Refused answer := by
  obtain ⟨t', ht', h⟩ := linked_of_openOver_around (Viewed.capacity σ) ht
  have hf' := h.answers_of_unrecords hms hrs hf
  have hlast := (h.run (MarkerBook.link_unrecords _) hms hrs hf' hf).2.book
  have hw' : t'.book.WrittenThrough [] :=
    writtenThrough_of_openOver (s := Recorded.around s) ⟨hs, fun _ h => nomatch h⟩ ht'
  have hcourse := writtenThrough_after hw' (h.chronicle ▸ h.within) hms hrs hf'
  have hp : (t.after ms).book.Persisted := by
    rw [hlast]
    exact ⟨hcourse.behind, hcourse.persisted.stored, hcourse.waiting⟩
  exact ⟨hp, hp.contents_eq, t', ht', hlast.symm, hcourse.sound.2⟩

/-- A byte table with a budget of three calls: the opening, the reading of the room and the
forgetting of another room use it up, so the marker of the thread waits until the budget is
raised. -/
theorem markers_written_through_on_rations :
    let s : Rationed ByteTable := ⟨.empty, some 3, 0⟩
    let t := fresh .counting {} ⟨"@me"⟩ ⟨⟨.empty, some 2, 0⟩, .empty, .empty⟩
    let room : RoomId := ⟨"!r"⟩
    let ms : List Moment :=
      [.command (.receive room [⟨⟨"$1"⟩, room, ⟨"@bot"⟩, 1, .plain, false⟩,
          ⟨⟨"$2"⟩, room, ⟨"@bot"⟩, 2, .threadReply ⟨"$1"⟩, false⟩] false),
        .command (.viewRoom room), .command (.forget ⟨"!s"⟩), .command (.viewThread room ⟨"$1"⟩)]
    (t.after ms).book.Persisted ∧
      ((t.after ms).book.marks.size, (t.after ms).book.unflushed.size,
        (t.after ms).book.storage.inner.rows.size) = (2, 1, 1) ∧
      ∃ t' : Tracker (Recorded (Rationed ByteTable)),
        (openOver .counting {} ⟨"@me"⟩ (Recorded.around s)).1 = .ok t' ∧
        (t'.after ms).book.unrecorded = (t.after ms).book ∧
        ∀ answer ∈ (t'.after ms).book.storage.writes, ¬ Refused answer := by
  intro s t room ms
  have ht : (openOver .counting {} ⟨"@me"⟩ s).1 = .ok t := rfl
  have hs : Viewed.sound s := ⟨.empty, ByteTable.holds_empty⟩
  have hroom : room.Fits := by decide +kernel
  have hother : (⟨"!s"⟩ : RoomId).Fits := by decide +kernel
  have hevent : ∀ {id}, id ∈ ["$1", "$2"] → (utf8 id).length < Cbor.headBound := by
    decide +kernel
  have hnumber : ∀ {q}, q < 3 → q < Cbor.headBound := fun h => Nat.lt_trans h (by decide)
  have hfirst : ∀ root : EventId, Content.plain = .threadReply root →
      ByteTable.capacity.event root := nofun
  have hsecond : ∀ root : EventId, Content.threadReply ⟨"$1"⟩ = .threadReply root →
      ByteTable.capacity.event root := by
    rintro root ⟨⟩
    exact hevent (by simp)
  have hms : ∀ m ∈ ms, m.Within ByteTable.capacity := by
    simp only [ms, List.forall_mem_cons, Moment.Within, Moment.messages, Command.messages]
    exact ⟨⟨⟨hroom, hevent (by simp), hnumber (by decide), hfirst⟩,
      ⟨hroom, hevent (by simp), hnumber (by decide), hsecond⟩, nofun⟩, nofun, nofun, nofun, nofun⟩
  have hrs : ∀ m ∈ ms, m.ForgetsWithin ByteTable.capacity := by
    rintro m hm forgotten rfl
    obtain rfl : forgotten = ⟨"!s"⟩ := by simpa [ms] using hm
    exact hother
  obtain ⟨hp, -, hr⟩ := markers_written_through hs ht hms hrs (by decide +kernel)
  exact ⟨hp, by decide +kernel, hr⟩

end Tracker

end ReadTracking
