import ReadTracking.Backing.Faulty
import ReadTracking.Backing.Rationed
import ReadTracking.Backing.Shelf
import ReadTracking.Proofs.Capacity

/-!
# The laws of a storage

A storage holds one marker for a slot.  A write that succeeds puts its marker there; a write that
fails changes nothing, and a batch that fails has stored a beginning of itself.  The laws speak
only of writes that move no marker back, and such a write is never refused as one that does.
Memory keeps the laws, and faults and rations around a lawful storage keep them too.
-/

set_option autoImplicit false

namespace ReadTracking

abbrev MarkMap : Type := Table Slot Mark

def MarkMap.without (m : MarkMap) (room : RoomId) : MarkMap :=
  m.filter fun slot _ => slot.scope.room != room

def Entry.pair (e : Entry) : Slot × Mark := (e.slot, e.mark)

def Capacity.entry (K : Capacity) (e : Entry) : Prop :=
  K.scope e.slot.scope ∧ K.event e.mark.event ∧ K.number e.mark.sequence ∧ K.number e.mark.stamp

namespace Backing

def NoneBehind (t : MarkMap) : List Entry → Prop
  | [] => True
  | e :: es => (∀ m, t.get? e.slot = some m → m.sequence ≤ e.mark.sequence) ∧
      NoneBehind (t.insert e.slot e.mark) es

structure LawfulStore {σ : Type} (capacity : Capacity) (sound : σ → Prop)
    (contents : σ → MarkMap) (store : Entry → σ → Called Unit σ) : Prop where
  ok : ∀ {s e s'}, sound s → capacity.entry e → NoneBehind (contents s) [e] →
    store e s = (.ok (), s') → sound s' ∧ contents s' = (contents s).insert e.slot e.mark
  error : ∀ {s e why s'}, sound s → capacity.entry e → NoneBehind (contents s) [e] →
    store e s = (.error why, s') →
    sound s' ∧ contents s' = contents s ∧ why.isRegression = false

class Viewed (σ : Type) [Backing σ] where
  capacity : Capacity
  sound : σ → Prop
  contents : σ → MarkMap
  clock : ∀ {n}, n < Sum64.bound → capacity.number n
  fits : ∀ {s slot m}, sound s → (contents s).get? slot = some m → capacity.entry ⟨slot, m⟩
  list_ok : ∀ {s es s'}, sound s → list s = (.ok es, s') →
    sound s' ∧ contents s' = contents s ∧ MarkerBook.marksOf es = contents s
  -- A room beyond the limits may share the beginning of its key with others.
  forget_ok : ∀ {s room n s'}, sound s → capacity.room room → forget room s = (.ok n, s') →
    sound s' ∧ contents s' = (contents s).without room

class Lawful (σ : Type) [Backing σ] extends Viewed σ where
  store : LawfulStore capacity sound contents Backing.store
  storeAll_ok : ∀ {s es s'}, sound s → (∀ e ∈ es, capacity.entry e) →
    NoneBehind (contents s) es → storeAll es s = (.ok (), s') →
    sound s' ∧ contents s' = (contents s).insertAll (es.map Entry.pair)
  storeAll_error : ∀ {s es why s'}, sound s → (∀ e ∈ es, capacity.entry e) →
    NoneBehind (contents s) es → storeAll es s = (.error why, s') →
    sound s' ∧ why.isRegression = false ∧
      ∃ n, contents s' = (contents s).insertAll ((es.take n).map Entry.pair)

/-! ## Batches that are written one by one -/

namespace LawfulStore

variable {σ : Type} {capacity : Capacity} {sound : σ → Prop} {contents : σ → MarkMap}
  {store : Entry → σ → Called Unit σ} (L : LawfulStore capacity sound contents store)

include L

theorem storeEach_ok {s s' : σ} {es : List Entry} (hs : sound s)
    (he : ∀ e ∈ es, capacity.entry e) (hb : NoneBehind (contents s) es)
    (h : storeEach store es s = (.ok (), s')) :
    sound s' ∧ contents s' = (contents s).insertAll (es.map Entry.pair) := by
  induction es generalizing s with
  | nil =>
    cases h
    exact ⟨hs, rfl⟩
  | cons e es ih =>
    simp only [storeEach] at h
    split at h
    next s₁ hw =>
      obtain ⟨hs₁, hc⟩ := L.ok hs (he e List.mem_cons_self) ⟨hb.1, trivial⟩ hw
      have hrest := ih hs₁ (fun e hm => he e (List.mem_cons_of_mem _ hm)) (hc ▸ hb.2) h
      rw [hc] at hrest
      exact hrest
    next => cases h

/-- A batch that fails was written up to the write that failed. -/
theorem storeEach_error {s s' : σ} {es : List Entry} {why : StorageError} (hs : sound s)
    (he : ∀ e ∈ es, capacity.entry e) (hb : NoneBehind (contents s) es)
    (h : storeEach store es s = (.error why, s')) :
    sound s' ∧ why.isRegression = false ∧
      ∃ n, contents s' = (contents s).insertAll ((es.take n).map Entry.pair) := by
  induction es generalizing s with
  | nil => cases h
  | cons e es ih =>
    simp only [storeEach] at h
    split at h
    next s₁ hw =>
      obtain ⟨hs₁, hc⟩ := L.ok hs (he e List.mem_cons_self) ⟨hb.1, trivial⟩ hw
      obtain ⟨hs', hwhy, n, hn⟩ :=
        ih hs₁ (fun e hm => he e (List.mem_cons_of_mem _ hm)) (hc ▸ hb.2) h
      rw [hc] at hn
      exact ⟨hs', hwhy, n + 1, hn⟩
    next why' s₁ hw =>
      cases h
      obtain ⟨hs', hc, hwhy⟩ := L.error hs (he e List.mem_cons_self) ⟨hb.1, trivial⟩ hw
      exact ⟨hs', hwhy, 0, hc⟩

end LawfulStore

end Backing

open Backing

/-! ## Memory -/

namespace Shelf

theorem regression?_eq_none {s : Shelf} {e : Entry}
    (h : ∀ m, s.marks.get? e.slot = some m → m.sequence ≤ e.mark.sequence) :
    s.regression? e = none := by
  unfold regression?
  cases hm : s.marks.get? e.slot with
  | none => rfl
  | some m =>
    have hle := h m hm
    exact if_neg (Nat.not_lt.2 hle)

/-- Entries that are written in order without moving a marker back also move none back that was
there before all of them. -/
theorem regression?_eq_none_of_noneBehind {s : Shelf} {es : List Entry}
    (h : NoneBehind s.marks es) : ∀ e ∈ es, s.regression? e = none := by
  induction es generalizing s with
  | nil =>
    intro e he
    cases he
  | cons e es ih =>
    intro e' he'
    rcases List.mem_cons.1 he' with rfl | he'
    · exact regression?_eq_none h.1
    · refine regression?_eq_none fun m hm => ?_
      by_cases hslot : e'.slot = e.slot
      · -- A later entry for the same slot is no further back than this one.
        have hfirst := h.1 m (hslot ▸ hm)
        have hrest : (⟨s.marks.insert e.slot e.mark⟩ : Shelf).regression? e' = none :=
          ih h.2 e' he'
        simp only [regression?, hslot, Table.get?_insert_self] at hrest
        split at hrest
        next => cases hrest
        next hn => omega
      · have hrest : (⟨s.marks.insert e.slot e.mark⟩ : Shelf).regression? e' = none :=
          ih h.2 e' he'
        simp only [regression?, Table.get?_insert_of_ne _ _ hslot, hm] at hrest
        split at hrest
        next => cases hrest
        next hn => omega

theorem foldl_put (s : Shelf) (es : List Entry) :
    (es.foldl put s).marks = s.marks.insertAll (es.map Entry.pair) := by
  induction es generalizing s with
  | nil => rfl
  | cons e es ih => exact ih _

theorem storeAll_of_noneBehind {s : Shelf} {es : List Entry} (h : NoneBehind s.marks es) :
    Backing.storeAll es s = (.ok (), es.foldl put s) := by
  have hnone : es.findSome? s.regression? = none :=
    List.findSome?_eq_none_iff.2 (regression?_eq_none_of_noneBehind h)
  show Shelf.storeAll es s = _
  simp only [Shelf.storeAll, hnone]

theorem store_of_noneBehind {s : Shelf} {e : Entry} (h : NoneBehind s.marks [e]) :
    Backing.store e s = (.ok (), s.put e) := by
  show Shelf.store e s = _
  simp only [Shelf.store, regression?_eq_none h.1]

instance : Viewed Shelf where
  capacity := .unlimited
  sound _ := True
  contents s := s.marks
  clock _ := trivial
  fits _ _ := ⟨⟨trivial, fun _ _ => trivial⟩, trivial, trivial, trivial⟩
  list_ok {s es s'} _ h := by
    cases h
    refine ⟨trivial, rfl, ?_⟩
    show Table.ofList ((s.marks.entries.map fun p => (⟨p.1, p.2⟩ : Entry)).map _) = _
    rw [List.map_map]
    exact (congrArg Table.ofList (List.map_id _)).trans s.marks.insertAll_entries
  forget_ok _ _ h := by
    cases h
    exact ⟨trivial, rfl⟩

instance : Lawful Shelf where
  store := {
    ok := by
      intro s e s' _ _ hb h
      rw [store_of_noneBehind hb] at h
      cases h
      exact ⟨trivial, rfl⟩
    error := by
      intro s e why s' _ _ hb h
      rw [store_of_noneBehind hb] at h
      cases h }
  storeAll_ok {s es s'} _ _ hb h := by
    rw [storeAll_of_noneBehind hb] at h
    cases h
    exact ⟨trivial, foldl_put s es⟩
  storeAll_error _ _ hb h := by
    rw [storeAll_of_noneBehind hb] at h
    cases h

end Shelf

/-! ## A storage around another -/

namespace Backing

section

variable {τ σ α : Type}

/-- A call is made to the storage inside, or it fails and leaves the storage inside as it is. -/
def Passes (inner : τ → σ) (outer : τ → Called α τ) (act : σ → Called α σ) : Prop :=
  ∀ t t' answer, outer t = (answer, t') →
    ((∃ text, answer = .error (.io text)) ∧ inner t' = inner t) ∨
      act (inner t) = (answer, inner t')

namespace Passes

variable {inner : τ → σ} {outer : τ → Called α τ} {act : σ → Called α σ}
  (p : Passes inner outer act) {t t' : τ}

include p

theorem of_ok {a : α} (h : outer t = (.ok a, t')) : act (inner t) = (.ok a, inner t') := by
  rcases p _ _ _ h with ⟨⟨_, he⟩, -⟩ | h
  · cases he
  · exact h

theorem of_error {why : StorageError} (h : outer t = (.error why, t')) :
    (why.isRegression = false ∧ inner t' = inner t) ∨
      act (inner t) = (.error why, inner t') := by
  rcases p _ _ _ h with ⟨⟨_, he⟩, hi⟩ | h
  · cases he
    exact .inl ⟨rfl, hi⟩
  · exact .inr h

theorem keeps {P : σ → Prop} (h : P (inner t)) (hact : P (act (inner t)).2) :
    P (inner (outer t).2) := by
  rcases p t _ _ rfl with ⟨-, hi⟩ | hinner
  · exact hi.symm ▸ h
  · rw [hinner] at hact
    exact hact

end Passes

theorem LawfulStore.around {inner : τ → σ} {capacity : Capacity} {sound : σ → Prop}
    {contents : σ → MarkMap} {store : Entry → σ → Called Unit σ}
    {outer : Entry → τ → Called Unit τ} (L : LawfulStore capacity sound contents store)
    (p : ∀ e, Passes inner (outer e) (store e)) :
    LawfulStore capacity (fun t => sound (inner t)) (fun t => contents (inner t)) outer where
  ok {_ e _} hs he hb h := L.ok hs he hb ((p e).of_ok h)
  error {_ e _ _} hs he hb h := by
    rcases (p e).of_error h with ⟨hwhy, hi⟩ | h
    · exact ⟨hi ▸ hs, congrArg _ hi, hwhy⟩
    · exact L.error hs he hb h

variable [Backing τ] [Backing σ]

@[reducible] def Viewed.around [Viewed σ] (inner : τ → σ)
    (plist : Passes inner (Backing.list (σ := τ)) Backing.list)
    (pforget : ∀ room, Passes inner (Backing.forget (σ := τ) room) (Backing.forget room)) :
    Viewed τ where
  capacity := Viewed.capacity σ
  sound t := Viewed.sound (inner t)
  contents t := Viewed.contents (inner t)
  clock := Viewed.clock
  fits := Viewed.fits
  list_ok hs h := Viewed.list_ok hs (plist.of_ok h)
  forget_ok hs hroom h := Viewed.forget_ok hs hroom ((pforget _).of_ok h)

end

end Backing

namespace Faulty

variable {σ α : Type}

theorem passes (name : String) (act : σ → Called α σ) : Passes inner (call name act) act := by
  intro f f' answer h
  have hinner : f.roll.1.inner = f.inner := rfl
  unfold call at h
  split at h
  next f₁ hroll =>
    cases h
    left
    rw [hroll] at hinner
    exact ⟨⟨_, rfl⟩, hinner⟩
  next f₁ hroll =>
    right
    rw [hroll] at hinner
    dsimp only at hinner h
    rw [hinner] at h
    cases h
    rfl

variable [Backing σ]

instance [Viewed σ] : Viewed (Faulty σ) := .around inner (passes _ _) fun _ => passes _ _

instance [Lawful σ] : Lawful (Faulty σ) where
  store := Lawful.store.around fun _ => passes _ _
  storeAll_ok hs he hb h := Lawful.storeAll_ok hs he hb ((passes _ _).of_ok h)
  storeAll_error {f es why f'} hs he hb h := by
    rcases (passes _ _).of_error h with ⟨hwhy, hi⟩ | h
    · have hsound : Viewed.sound f'.inner := hi ▸ hs
      have hcontents : Viewed.contents f'.inner = Viewed.contents f.inner := by rw [hi]
      exact ⟨hsound, hwhy, 0, hcontents⟩
    · exact Lawful.storeAll_error hs he hb h

end Faulty

namespace Rationed

variable {σ α : Type}

theorem passes (act : σ → Called α σ) : Passes inner (call act) act := by
  intro r r' answer h
  unfold call at h
  split at h
  · cases h
    exact .inl ⟨⟨_, rfl⟩, rfl⟩
  · cases h
    exact .inr rfl
  · cases h
    exact .inr rfl

variable [Backing σ]

instance [Viewed σ] : Viewed (Rationed σ) := .around inner (passes _) fun _ => passes _

theorem lawfulStore [Lawful σ] : LawfulStore (Viewed.capacity (Rationed σ)) Viewed.sound
    Viewed.contents fun e => call (Backing.store (σ := σ) e) :=
  Lawful.store.around fun _ => passes _

instance [Lawful σ] : Lawful (Rationed σ) where
  store := lawfulStore
  storeAll_ok hs he hb h := lawfulStore.storeEach_ok hs he hb h
  storeAll_error hs he hb h := lawfulStore.storeEach_error hs he hb h

end Rationed

end ReadTracking
