import ReadTracking.KeyOrder

/-!
# Tables

A `Table` is a finite map kept as a list of entries in strictly rising key order.  Two tables
that answer every look-up alike are equal (`Table.ext_get?`), so an equation between tables is
an equation between maps, and every listing of a table has one answer.  Each operation comes
with the look-up it leaves behind.
-/

set_option autoImplicit false

namespace ReadTracking

open KeyOrder

structure Table (α β : Type) [KeyOrder α] where
  entries : List (α × β)
  rising : entries.Pairwise (fun p q => before p.1 q.1)

namespace Table

variable {α β γ : Type} [KeyOrder α]

/-! ## Entry lists -/

def lookup (k : α) : List (α × β) → Option β
  | [] => none
  | (a, v) :: rest =>
    if before a k then lookup k rest else if before k a then none else some v

def place (k : α) (v : β) : List (α × β) → List (α × β)
  | [] => [(k, v)]
  | (a, w) :: rest =>
    if before a k then (a, w) :: place k v rest
    else if before k a then (k, v) :: (a, w) :: rest
    else (k, v) :: rest

def remove (k : α) : List (α × β) → List (α × β)
  | [] => []
  | (a, w) :: rest =>
    if before a k then (a, w) :: remove k rest
    else if before k a then (a, w) :: rest
    else rest

theorem mem_place {k : α} {v : β} {l : List (α × β)} {p : α × β} (h : p ∈ place k v l) :
    p = (k, v) ∨ p ∈ l := by
  induction l with
  | nil => simpa [place] using h
  | cons e rest ih =>
    obtain ⟨a, w⟩ := e
    simp only [place] at h
    split at h
    · rcases List.mem_cons.1 h with h | h
      · exact .inr (h ▸ List.mem_cons_self)
      · exact (ih h).imp id (List.mem_cons_of_mem _)
    · split at h
      · rcases List.mem_cons.1 h with h | h
        · exact .inl h
        · exact .inr h
      · rcases List.mem_cons.1 h with h | h
        · exact .inl h
        · exact .inr (List.mem_cons_of_mem _ h)

theorem mem_of_mem_remove {k : α} {l : List (α × β)} {p : α × β} (h : p ∈ remove k l) :
    p ∈ l := by
  induction l with
  | nil => exact h
  | cons e rest ih =>
    obtain ⟨a, w⟩ := e
    simp only [remove] at h
    split at h
    · rcases List.mem_cons.1 h with h | h
      · exact h ▸ List.mem_cons_self
      · exact List.mem_cons_of_mem _ (ih h)
    · split at h
      · exact h
      · exact List.mem_cons_of_mem _ h

theorem rising_place {k : α} {v : β} {l : List (α × β)}
    (h : l.Pairwise (fun p q => before p.1 q.1)) :
    (place k v l).Pairwise (fun p q => before p.1 q.1) := by
  induction l with
  | nil => simp [place]
  | cons e rest ih =>
    obtain ⟨a, w⟩ := e
    have hr := List.pairwise_cons.1 h
    simp only [place]
    split
    next hak =>
      refine List.pairwise_cons.2 ⟨fun p hp => ?_, ih hr.2⟩
      rcases mem_place hp with rfl | hp
      · exact hak
      · exact hr.1 p hp
    next hak =>
      split
      next hka =>
        refine List.pairwise_cons.2 ⟨fun p hp => ?_, h⟩
        rcases List.mem_cons.1 hp with rfl | hp
        · exact hka
        · exact trans hka (hr.1 p hp)
      next hka =>
        refine List.pairwise_cons.2 ⟨fun p hp => ?_, hr.2⟩
        exact connected hak hka ▸ hr.1 p hp

theorem rising_remove {k : α} {l : List (α × β)}
    (h : l.Pairwise (fun p q => before p.1 q.1)) :
    (remove k l).Pairwise (fun p q => before p.1 q.1) := by
  induction l with
  | nil => exact h
  | cons e rest ih =>
    obtain ⟨a, w⟩ := e
    have hr := List.pairwise_cons.1 h
    simp only [remove]
    split
    · exact List.pairwise_cons.2 ⟨fun p hp => hr.1 p (mem_of_mem_remove hp), ih hr.2⟩
    · split
      · exact h
      · exact hr.2

theorem lookup_none_of_before {k : α} {l : List (α × β)} (h : ∀ p ∈ l, before k p.1) :
    lookup k l = none := by
  cases l with
  | nil => rfl
  | cons e rest =>
    have hk := h e List.mem_cons_self
    simp [lookup, asymm hk, hk]

theorem lookup_place (k k' : α) (v : β) (l : List (α × β)) [Decidable (k' = k)] :
    lookup k' (place k v l) = if k' = k then some v else lookup k' l := by
  induction l with
  | nil =>
    by_cases e : k' = k
    · subst e; simp [place, lookup, KeyOrder.irrefl]
    · by_cases h : before k k'
      · simp [place, lookup, e, h]
      · by_cases h' : before k' k
        · simp [place, lookup, e, h, h']
        · exact absurd (connected h' h) e
  | cons p rest ih =>
    obtain ⟨a, w⟩ := p
    by_cases hak : before a k
    · by_cases hak' : before a k'
      · simpa [place, lookup, hak, hak'] using ih
      · have e : k' ≠ k := fun e => hak' (e ▸ hak)
        simp [place, lookup, hak, hak', e]
    · by_cases hka : before k a
      · by_cases e : k' = k
        · subst e; simp [place, lookup, hak, hka, KeyOrder.irrefl]
        · by_cases h : before k k'
          · simp [place, lookup, hak, hka, h, e]
          · have h' : before k' k := (Decidable.em (before k' k)).elim id
              fun h' => absurd (connected h' h) e
            simp [place, lookup, hak, hka, h, h', e, asymm (trans h' hka), trans h' hka]
      · have e' := connected hak hka
        subst e'
        by_cases e : k' = a
        · subst e; simp [place, lookup, KeyOrder.irrefl]
        · by_cases h : before a k'
          · simp [place, lookup, KeyOrder.irrefl, h, e]
          · have h' : before k' a := (Decidable.em (before k' a)).elim id
              fun h' => absurd (connected h' h) e
            simp [place, lookup, KeyOrder.irrefl, h, h', e]

theorem lookup_remove (k k' : α) {l : List (α × β)} [Decidable (k' = k)]
    (hl : l.Pairwise (fun p q => before p.1 q.1)) :
    lookup k' (remove k l) = if k' = k then none else lookup k' l := by
  induction l with
  | nil => simp [remove, lookup]
  | cons p rest ih =>
    obtain ⟨a, w⟩ := p
    have hr := List.pairwise_cons.1 hl
    by_cases hak : before a k
    · by_cases hak' : before a k'
      · simpa [remove, lookup, hak, hak'] using ih hr.2
      · have e : k' ≠ k := fun e => hak' (e ▸ hak)
        simp [remove, lookup, hak, hak', e]
    · by_cases hka : before k a
      · by_cases e : k' = k
        · subst e; simp [remove, lookup, hak, hka]
        · simp [remove, hak, hka, e]
      · have e' := connected hak hka
        subst e'
        by_cases e : k' = a
        · subst e
          simp [remove, KeyOrder.irrefl, lookup_none_of_before hr.1]
        · by_cases h : before a k'
          · simp [remove, lookup, KeyOrder.irrefl, h, e]
          · have h' : before k' a := (Decidable.em (before k' a)).elim id
              fun h' => absurd (connected h' h) e
            simp [remove, lookup, KeyOrder.irrefl, h, h', e,
              lookup_none_of_before (fun p hp => trans h' (hr.1 p hp))]

theorem lookup_eq_some_iff {k : α} {v : β} {l : List (α × β)}
    (hl : l.Pairwise (fun p q => before p.1 q.1)) : lookup k l = some v ↔ (k, v) ∈ l := by
  induction l with
  | nil => simp [lookup]
  | cons p rest ih =>
    obtain ⟨a, w⟩ := p
    have hr := List.pairwise_cons.1 hl
    by_cases hak : before a k
    · have e : k ≠ a := fun e => KeyOrder.irrefl a (e ▸ hak)
      simp [lookup, hak, ih hr.2, e]
    · by_cases hka : before k a
      · have e : k ≠ a := fun e => KeyOrder.irrefl a (e ▸ hka)
        have hn : (k, v) ∉ rest := fun hm => hak (hr.1 _ hm)
        simp [lookup, hak, hka, e, hn]
      · have e := connected hak hka
        subst e
        have hn : (a, v) ∉ rest := fun hm => KeyOrder.irrefl a (hr.1 _ hm)
        simp [lookup, KeyOrder.irrefl, hn, eq_comm]

/-! ## Operations -/

def empty : Table α β := ⟨[], .nil⟩

instance : EmptyCollection (Table α β) := ⟨empty⟩

instance : Inhabited (Table α β) := ⟨empty⟩

def get? (t : Table α β) (k : α) : Option β := lookup k t.entries

def contains (t : Table α β) (k : α) : Bool := (t.get? k).isSome

def insert (t : Table α β) (k : α) (v : β) : Table α β :=
  ⟨place k v t.entries, rising_place t.rising⟩

def erase (t : Table α β) (k : α) : Table α β :=
  ⟨remove k t.entries, rising_remove t.rising⟩

def filter (t : Table α β) (keep : α → β → Bool) : Table α β :=
  ⟨t.entries.filter (fun p => keep p.1 p.2), t.rising.filter _⟩

def mapValues (t : Table α β) (f : α → β → γ) : Table α γ :=
  ⟨t.entries.map (fun p => (p.1, f p.1 p.2)), by
    simpa [List.pairwise_map] using t.rising⟩

def keys (t : Table α β) : List α := t.entries.map (·.1)

def values (t : Table α β) : List β := t.entries.map (·.2)

def size (t : Table α β) : Nat := t.entries.length

def isEmpty (t : Table α β) : Bool := t.entries.isEmpty

def first? (t : Table α β) : Option (α × β) := t.entries.head?

def last? (t : Table α β) : Option (α × β) := t.entries.getLast?

def insertAll (t : Table α β) (l : List (α × β)) : Table α β :=
  l.foldl (fun t p => t.insert p.1 p.2) t

def ofList (l : List (α × β)) : Table α β := insertAll empty l

/-! ## Look-ups after an operation -/

@[simp] theorem get?_empty (k : α) : (empty : Table α β).get? k = none := rfl

theorem get?_insert (t : Table α β) (k k' : α) (v : β) [Decidable (k' = k)] :
    (t.insert k v).get? k' = if k' = k then some v else t.get? k' :=
  lookup_place k k' v t.entries

@[simp] theorem get?_insert_self (t : Table α β) (k : α) (v : β) :
    (t.insert k v).get? k = some v := by
  classical
  simp [get?_insert]

theorem get?_insert_of_ne (t : Table α β) {k k' : α} (v : β) (h : k' ≠ k) :
    (t.insert k v).get? k' = t.get? k' := by
  classical
  simp [get?_insert, h]

theorem get?_erase (t : Table α β) (k k' : α) [Decidable (k' = k)] :
    (t.erase k).get? k' = if k' = k then none else t.get? k' :=
  lookup_remove k k' t.rising

theorem get?_eq_some_iff (t : Table α β) {k : α} {v : β} :
    t.get? k = some v ↔ (k, v) ∈ t.entries :=
  lookup_eq_some_iff t.rising

theorem get?_filter (t : Table α β) (keep : α → β → Bool) (k : α) :
    (t.filter keep).get? k = (t.get? k).filter (keep k) := by
  apply Option.ext
  intro v
  rw [get?_eq_some_iff]
  simp [filter, Option.filter_eq_some_iff, get?_eq_some_iff]

theorem get?_mapValues (t : Table α β) (f : α → β → γ) (k : α) :
    (t.mapValues f).get? k = (t.get? k).map (f k) := by
  apply Option.ext
  intro v
  rw [get?_eq_some_iff]
  simp only [mapValues, List.mem_map, Option.map_eq_some_iff, get?_eq_some_iff]
  constructor
  · rintro ⟨⟨a, w⟩, hm, e⟩
    cases e
    exact ⟨w, hm, rfl⟩
  · rintro ⟨w, hm, e⟩
    exact ⟨(k, w), hm, by rw [e]⟩

theorem eq_of_mem_iff {l l' : List (α × β)}
    (hl : l.Pairwise (fun p q => before p.1 q.1))
    (hl' : l'.Pairwise (fun p q => before p.1 q.1))
    (h : ∀ p, p ∈ l ↔ p ∈ l') : l = l' := by
  induction l generalizing l' with
  | nil =>
    cases l' with
    | nil => rfl
    | cons q _ => exact absurd ((h q).2 List.mem_cons_self) List.not_mem_nil
  | cons p rest ih =>
    cases l' with
    | nil => exact absurd ((h p).1 List.mem_cons_self) List.not_mem_nil
    | cons q rest' =>
      have hr := List.pairwise_cons.1 hl
      have hr' := List.pairwise_cons.1 hl'
      have e : p = q := by
        rcases List.mem_cons.1 ((h p).1 List.mem_cons_self) with e | hm
        · exact e
        · rcases List.mem_cons.1 ((h q).2 List.mem_cons_self) with e | hm'
          · exact e.symm
          · exact absurd (hr'.1 _ hm) (asymm (hr.1 _ hm'))
      subst e
      congr 1
      refine ih hr.2 hr'.2 fun x => ⟨fun hx => ?_, fun hx => ?_⟩
      · rcases List.mem_cons.1 ((h x).1 (List.mem_cons_of_mem _ hx)) with e | hm
        · exact absurd (hr.1 _ hx) (e ▸ KeyOrder.irrefl _)
        · exact hm
      · rcases List.mem_cons.1 ((h x).2 (List.mem_cons_of_mem _ hx)) with e | hm
        · exact absurd (hr'.1 _ hx) (e ▸ KeyOrder.irrefl _)
        · exact hm

theorem ext_get? {t t' : Table α β} (h : ∀ k, t.get? k = t'.get? k) : t = t' := by
  have e : t.entries = t'.entries := eq_of_mem_iff t.rising t'.rising fun ⟨k, v⟩ => by
    rw [← get?_eq_some_iff, ← get?_eq_some_iff, h]
  cases t
  cases t'
  simpa using e

instance [DecidableEq α] [DecidableEq β] : DecidableEq (Table α β) := fun t t' =>
  decidable_of_iff (t.entries = t'.entries) ⟨fun e => by cases t; cases t'; simpa using e,
    fun e => e ▸ rfl⟩

end Table

end ReadTracking
