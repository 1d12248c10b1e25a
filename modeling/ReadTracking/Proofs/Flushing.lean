import ReadTracking.Proofs.Marks
import ReadTracking.Proofs.Tables

/-!
# Every waiting marker is tried once

To flush a book is to store the marker of each waiting slot, one after the other and whatever the
answers are.  A slot waits again exactly if its own try failed, where a slot that holds a later
marker has not failed; the markers stay, and the answer is the first failure or, without one, the
number of the slots.  So a failure at one slot never keeps another from being written.
-/

set_option autoImplicit false

namespace ReadTracking

open KeyOrder

variable {σ : Type}

/-! ## Tries -/

def failure? : Except StorageError Unit → Option StorageError
  | .ok () => none
  | .error why => if why.isRegression then none else some why

structure Try where
  entry : Entry
  answer : Except StorageError Unit
  deriving Inhabited

namespace Try

def failure? (t : Try) : Option StorageError := ReadTracking.failure? t.answer

def Failed (t : Try) : Prop := t.failure?.isSome = true

instance (t : Try) : Decidable t.Failed := inferInstanceAs (Decidable (_ = true))

end Try

def storeEvery [Backing σ] : List Entry → σ → List Try × σ
  | [], s => ([], s)
  | e :: es, s =>
    let (answer, s) := Backing.store e s
    let (rest, s) := storeEvery es s
    (⟨e, answer⟩ :: rest, s)

theorem entries_storeEvery [Backing σ] (es : List Entry) (s : σ) :
    (storeEvery es s).1.map (·.entry) = es := by
  induction es generalizing s with
  | nil => rfl
  | cons e es ih => exact congrArg (e :: ·) (ih _)

def firstFailure? (tries : List Try) : Option StorageError := tries.findSome? Try.failure?

theorem firstFailure?_cons (t : Try) (tries : List Try) :
    firstFailure? (t :: tries) = t.failure?.or (firstFailure? tries) := by
  rw [firstFailure?, List.findSome?_cons]
  cases t.failure? <;> rfl

theorem firstFailure?_isSome {tries : List Try} :
    (firstFailure? tries).isSome = true ↔ ∃ t ∈ tries, t.Failed := by
  rw [firstFailure?, List.findSome?_isSome_iff]
  rfl

namespace MarkerBook

/-! ## One try -/

def tried (b : MarkerBook σ) (slot : Slot) (called : Called Unit σ) : MarkerBook σ :=
  if (failure? called.1).isSome then { b with storage := called.2 }.defer slot
  else { b with storage := called.2 }

variable {b : MarkerBook σ} {slot : Slot} {m : Mark}

@[simp] theorem storage_tried (b : MarkerBook σ) (slot : Slot) (called : Called Unit σ) :
    (b.tried slot called).storage = called.2 := by
  unfold tried
  split <;> rfl

@[simp] theorem marks_tried (b : MarkerBook σ) (slot : Slot) (called : Called Unit σ) :
    (b.tried slot called).marks = b.marks := by
  unfold tried
  split <;> rfl

theorem contains_unflushed_tried (b : MarkerBook σ) (slot : Slot) (called : Called Unit σ)
    (slot' : Slot) : (b.tried slot called).unflushed.contains slot' = true ↔
      (slot = slot' ∧ (failure? called.1).isSome = true) ∨
        b.unflushed.contains slot' = true := by
  unfold tried
  split
  next hf =>
    rw [defer, Table.contains, Table.get?_insert]
    by_cases h : slot' = slot
    · simp [h, hf]
    · simp [h, Ne.symm h, Table.contains]
  next hf => simp [hf]

/-- One step of a flush is a try; what comes after it does not depend on its answer. -/
theorem flushSlots_cons [Backing σ] (h : b.marks.get? slot = some m) (slots : List Slot) :
    flushSlots (slot :: slots) b =
      let called := Backing.store ⟨slot, m⟩ b.storage
      let rest := flushSlots slots (b.tried slot called)
      (rest.1, rest.2.1 + (if (failure? called.1).isSome then 0 else 1),
        (failure? called.1).or rest.2.2) := by
  simp only [flushSlots, h]
  generalize Backing.store (⟨slot, m⟩ : Entry) b.storage = called
  obtain ⟨answer, s⟩ := called
  cases answer with
  | ok _ => rfl
  | error why => cases hr : why.isRegression <;> simp [tried, failure?, hr]

/-! ## All tries -/

def entriesOf (b : MarkerBook σ) (slots : List Slot) : List Entry :=
  slots.filterMap fun slot => (b.marks.get? slot).map (⟨slot, ·⟩)

theorem entriesOf_cons (h : b.marks.get? slot = some m) (slots : List Slot) :
    b.entriesOf (slot :: slots) = ⟨slot, m⟩ :: b.entriesOf slots :=
  List.filterMap_cons_some (by rw [h]; rfl)

theorem entriesOf_congr {b' : MarkerBook σ} (h : b'.marks = b.marks) (slots : List Slot) :
    b'.entriesOf slots = b.entriesOf slots := by
  rw [entriesOf, h, entriesOf]

structure Flushes (b : MarkerBook σ) (slots : List Slot)
    (r : MarkerBook σ × Nat × Option StorageError) (stored : List Try × σ) : Prop where
  storage : r.1.storage = stored.2
  waiting : ∀ slot, r.1.unflushed.contains slot = true ↔
    (∃ t ∈ stored.1, t.entry.slot = slot ∧ t.Failed) ∨ b.unflushed.contains slot = true
  first : r.2.2 = firstFailure? stored.1
  written : firstFailure? stored.1 = none → r.2.1 = slots.length

theorem flushes [Backing σ] (slots : List Slot) (b : MarkerBook σ)
    (hslots : ∀ slot ∈ slots, b.marks.contains slot = true) :
    b.Flushes slots (flushSlots slots b) (storeEvery (b.entriesOf slots) b.storage) := by
  induction slots generalizing b with
  | nil => exact ⟨rfl, fun slot => by simp [flushSlots, entriesOf, storeEvery], rfl, fun _ => rfl⟩
  | cons slot slots ih =>
    obtain ⟨m, hm⟩ := Table.contains_iff.1 (hslots slot List.mem_cons_self)
    rw [flushSlots_cons hm, entriesOf_cons hm]
    generalize hcalled : Backing.store (⟨slot, m⟩ : Entry) b.storage = called
    have hrest := ih (b.tried slot called) fun slot' h' => by
      rw [marks_tried]
      exact hslots slot' (List.mem_cons_of_mem _ h')
    rw [entriesOf_congr (marks_tried b slot called), storage_tried] at hrest
    have hstored : storeEvery (⟨slot, m⟩ :: b.entriesOf slots) b.storage =
        (⟨⟨slot, m⟩, called.1⟩ :: (storeEvery (b.entriesOf slots) called.2).1,
          (storeEvery (b.entriesOf slots) called.2).2) := by rw [← hcalled]; rfl
    rw [hstored]
    refine ⟨hrest.storage, fun slot' => ?_, ?_, fun hnone => ?_⟩
    · rw [hrest.waiting, contains_unflushed_tried]
      simp only [List.mem_cons, exists_eq_or_imp, or_assoc]
      exact or_left_comm
    · rw [firstFailure?_cons, ← hrest.first]
      rfl
    · rw [firstFailure?_cons, Option.or_eq_none_iff] at hnone
      have hfailed : failure? called.1 = none := hnone.1
      simp only [hfailed, hrest.written hnone.2, List.length_cons, Option.isSome_none,
        Bool.false_eq_true, if_false]

theorem flush_snd [Backing σ] (b : MarkerBook σ) : b.flush.2 =
    match (flushSlots b.unflushed.keys { b with unflushed := .empty }).2.2 with
    | some why => .error why
    | none => .ok (flushSlots b.unflushed.keys { b with unflushed := .empty }).2.1 := by
  unfold flush
  split
  next h => rw [h]
  next h => rw [h]

/-! ## Main statement -/

def owed (b : MarkerBook σ) : List Entry := b.entriesOf b.unflushed.keys

theorem map_slot_entriesOf (b : MarkerBook σ) {slots : List Slot}
    (hslots : ∀ slot ∈ slots, b.marks.contains slot = true) :
    (b.entriesOf slots).map (·.slot) = slots := by
  induction slots with
  | nil => rfl
  | cons slot slots ih =>
    obtain ⟨m, hm⟩ := Table.contains_iff.1 (hslots slot List.mem_cons_self)
    rw [entriesOf_cons hm, List.map_cons, ih fun s h => hslots s (List.mem_cons_of_mem _ h)]

theorem get?_of_mem_entriesOf {slots : List Slot} {e : Entry} (h : e ∈ b.entriesOf slots) :
    b.marks.get? e.slot = some e.mark := by
  obtain ⟨slot, -, he⟩ := List.mem_filterMap.1 h
  obtain ⟨m, hm, rfl⟩ := Option.map_eq_some_iff.1 he
  exact hm

/-- A flush stores the marker of every waiting slot once, in the order of the slots and whatever
the answers are.  Then exactly the slots wait whose own try failed, the markers are as they were,
and the answer is the first failure, or else the number of the slots that waited. -/
theorem flush_tries_each_once [Backing σ] (b : MarkerBook σ)
    (hw : ∀ slot, b.unflushed.contains slot = true → b.marks.contains slot = true) :
    let stored := storeEvery b.owed b.storage
    (stored.1.map (·.entry) = b.owed ∧ b.owed.map (·.slot) = b.unflushed.keys ∧
      b.unflushed.keys.Pairwise before ∧ ∀ e ∈ b.owed, b.marks.get? e.slot = some e.mark) ∧
    b.flush.1.storage = stored.2 ∧
    b.flush.1.marks = b.marks ∧
    (∀ slot, b.flush.1.unflushed.contains slot = true ↔
      ∃ t ∈ stored.1, t.entry.slot = slot ∧ t.Failed) ∧
    b.flush.2 = (match firstFailure? stored.1 with
      | some why => .error why
      | none => .ok b.unflushed.size) ∧
    ((∃ n, b.flush.2 = .ok n) ↔ b.flush.1.unflushed.isEmpty = true) := by
  intro stored
  have hkeys : ∀ slot ∈ b.unflushed.keys, b.marks.contains slot = true := fun slot hslot =>
    hw slot (Table.contains_iff.2 (Table.mem_keys.1 hslot))
  have hall : Flushes { b with unflushed := .empty } b.unflushed.keys
      (flushSlots b.unflushed.keys { b with unflushed := .empty }) stored :=
    flushes b.unflushed.keys { b with unflushed := .empty } hkeys
  have hwaiting : ∀ slot, b.flush.1.unflushed.contains slot = true ↔
      ∃ t ∈ stored.1, t.entry.slot = slot ∧ t.Failed := fun slot => by
    rw [flush_fst, hall.waiting, or_iff_left]
    exact Bool.false_ne_true
  have hanswer : b.flush.2 = (match firstFailure? stored.1 with
      | some why => .error why
      | none => .ok b.unflushed.size) := by
    rw [flush_snd, ← hall.first]
    split
    next => rfl
    next hnone => rw [hall.written (hall.first ▸ hnone), Table.length_keys]
  refine ⟨⟨entries_storeEvery _ _, b.map_slot_entriesOf hkeys, ?_, fun e => get?_of_mem_entriesOf⟩,
    ?_, b.marks_flush, hwaiting, hanswer, ?_⟩
  · exact b.unflushed.rising.map _ fun _ _ => id
  · rw [flush_fst]
    exact hall.storage
  · rw [hanswer, Table.isEmpty_iff]
    simp only [← Table.contains_eq_false_iff, ← Bool.not_eq_true, hwaiting]
    cases hfirst : firstFailure? stored.1 with
    | some why =>
      obtain ⟨t, ht, hfailed⟩ := firstFailure?_isSome.1 (by rw [hfirst]; rfl)
      constructor
      · rintro ⟨n, ⟨⟩⟩
      · exact fun hnone => absurd ⟨t, ht, rfl, hfailed⟩ (hnone t.entry.slot)
    | none =>
      refine iff_of_true ⟨_, rfl⟩ ?_
      rintro slot ⟨t, ht, -, hfailed⟩
      have hsome := firstFailure?_isSome.2 ⟨t, ht, hfailed⟩
      rw [hfirst] at hsome
      cases hsome

end MarkerBook

/-! ## A storage that answers as foretold -/

structure Foretold where
  answers : List (Except StorageError Unit)
  asked : List Entry
  deriving Inhabited

namespace Foretold

def store (e : Entry) (f : Foretold) : Called Unit Foretold :=
  (f.answers.head?.getD (.ok ()), ⟨f.answers.tail, f.asked ++ [e]⟩)

instance : Backing Foretold where
  store := store
  storeAll := storeEach store
  load _ f := (.ok none, f)
  loadRoom _ f := (.ok [], f)
  list f := (.ok [], f)
  forget _ f := (.ok 0, f)

theorem storeEvery_eq (tries : List Try) (asked : List Entry) :
    storeEvery (tries.map (·.entry)) (⟨tries.map (·.answer), asked⟩ : Foretold) =
      (tries, ⟨[], asked ++ tries.map (·.entry)⟩) := by
  induction tries generalizing asked with
  | nil => simp [storeEvery]
  | cons t tries ih =>
    have hstore : Backing.store t.entry
        (⟨t.answer :: tries.map (·.answer), asked⟩ : Foretold) =
        (t.answer, ⟨tries.map (·.answer), asked ++ [t.entry]⟩) := rfl
    simp only [List.map_cons, storeEvery, hstore, ih, List.append_assoc, List.singleton_append]

end Foretold

/-- Four markers wait.  The first is stored, the second is not, for the third there is a later one,
and the last is not stored either. -/
theorem MarkerBook.flush_tries_each_once_of_four :
    let room (name : String) : Slot := ⟨⟨⟨name⟩, none⟩, .shared⟩
    let mark (q : Nat) : Mark := ⟨⟨"$e"⟩, q, 0⟩
    let slots := [room "!a", room "!b", room "!c", room "!d"]
    let tries : List Try := [⟨⟨room "!a", mark 1⟩, .ok ()⟩,
      ⟨⟨room "!b", mark 2⟩, .error (.io "disk full")⟩,
      ⟨⟨room "!c", mark 3⟩, .error (.regression 9 3)⟩,
      ⟨⟨room "!d", mark 4⟩, .error (.serialization "bad row")⟩]
    let b : MarkerBook Foretold :=
      ⟨⟨tries.map (·.answer), []⟩, .ofList (tries.map fun t => (t.entry.slot, t.entry.mark)),
        .ofList (slots.map (·, ()))⟩
    (∀ slot, b.unflushed.contains slot = true → b.marks.contains slot = true) ∧
      b.flush.1.storage = ⟨[], tries.map (·.entry)⟩ ∧ b.flush.1.marks = b.marks ∧
      (∀ slot, b.flush.1.unflushed.contains slot = true ↔ slot = room "!b" ∨ slot = room "!d") ∧
      b.flush.2 = .error (.io "disk full") := by
  intro room mark slots tries b
  have hwaits : ∀ slot ∈ b.unflushed.keys, b.marks.contains slot = true := by decide +kernel
  have howed : b.owed = tries.map (·.entry) := by decide +kernel
  have hstored : storeEvery b.owed b.storage = (tries, ⟨[], tries.map (·.entry)⟩) :=
    howed ▸ Foretold.storeEvery_eq tries []
  have hw : ∀ slot, b.unflushed.contains slot = true → b.marks.contains slot = true :=
    fun slot h => hwaits slot (Table.mem_keys.2 (Table.contains_iff.1 h))
  obtain ⟨-, hstorage, hmarks, hwaiting, hanswer, -⟩ := b.flush_tries_each_once hw
  rw [hstored] at hstorage hwaiting hanswer
  refine ⟨hw, hstorage, hmarks, fun slot => (hwaiting slot).trans ⟨?_, ?_⟩, hanswer⟩
  · have hfailed : ∀ t ∈ tries, t.Failed →
        t.entry.slot = room "!b" ∨ t.entry.slot = room "!d" := by decide
    rintro ⟨t, ht, rfl, hf⟩
    exact hfailed t ht hf
  · rintro (rfl | rfl)
    · exact ⟨tries[1], List.getElem_mem _, rfl, by decide⟩
    · exact ⟨tries[3], List.getElem_mem _, rfl, by decide⟩

end ReadTracking
