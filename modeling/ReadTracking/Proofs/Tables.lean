import ReadTracking.Table

/-!
# More about tables

A table is decided by its look-ups, so every listing of it can be put in terms of them: what is
in it, whether it is empty, and which entry comes last.
-/

set_option autoImplicit false

namespace ReadTracking.Table

open KeyOrder

variable {α β γ : Type} [KeyOrder α] {t : Table α β} {k : α} {v : β}

theorem contains_iff : t.contains k = true ↔ ∃ v, t.get? k = some v := by
  simp only [contains, Option.isSome_iff_exists]

theorem contains_eq_false_iff : t.contains k = false ↔ t.get? k = none := by
  simp only [contains, Option.isSome_eq_false_iff, Option.isNone_iff_eq_none]

theorem mem_keys : k ∈ t.keys ↔ ∃ v, t.get? k = some v := by
  simp only [keys, List.mem_map, get?_eq_some_iff]
  constructor
  · rintro ⟨⟨k', v⟩, h, rfl⟩
    exact ⟨v, h⟩
  · rintro ⟨v, h⟩
    exact ⟨(k, v), h, rfl⟩

theorem length_keys (t : Table α β) : t.keys.length = t.size := List.length_map _

theorem nodup_keys (t : Table α β) : t.keys.Nodup := by
  rw [keys, List.Nodup, List.pairwise_map]
  exact t.rising.imp fun h => ne_of_before h

theorem isEmpty_iff : t.isEmpty = true ↔ ∀ k, t.get? k = none := by
  simp only [isEmpty, List.isEmpty_iff]
  constructor
  · intro h k
    cases hk : t.get? k with
    | none => rfl
    | some v =>
      rw [get?_eq_some_iff, h] at hk
      cases hk
  · intro h
    rw [List.eq_nil_iff_forall_not_mem]
    rintro ⟨k, v⟩ hm
    have := get?_eq_some_iff t |>.2 hm
    rw [h] at this
    cases this

theorem size_eq_zero_iff : t.size = 0 ↔ ∀ k, t.get? k = none := by
  rw [← isEmpty_iff]
  simp [size, isEmpty]

theorem get?_erase_self (t : Table α β) (k : α) : (t.erase k).get? k = none := by
  classical
  rw [get?_erase, if_pos rfl]

theorem get?_erase_of_ne (t : Table α β) {k k' : α} (h : k' ≠ k) :
    (t.erase k).get? k' = t.get? k' := by
  classical
  rw [get?_erase, if_neg h]

theorem get?_foldl_erase_eq_some_iff {t : Table α β} {ks : List α} :
    (ks.foldl Table.erase t).get? k = some v ↔ k ∉ ks ∧ t.get? k = some v := by
  classical
  induction ks generalizing t with
  | nil => simp only [List.foldl_nil, List.not_mem_nil, not_false_eq_true, true_and]
  | cons k' ks ih =>
    rw [List.foldl_cons, ih, get?_erase, List.mem_cons, not_or]
    by_cases hk : k = k'
    · simp only [hk, if_true, not_true_eq_false, false_and, reduceCtorEq, and_false]
    · simp only [hk, if_false, not_false_eq_true, true_and]

theorem last?_eq_none_iff : t.last? = none ↔ ∀ k, t.get? k = none := by
  rw [← isEmpty_iff]
  simp [last?, isEmpty]

theorem last?_eq_some_iff : t.last? = some (k, v) ↔
    t.get? k = some v ∧ ∀ k' v', t.get? k' = some v' → ¬ before k k' := by
  have rises := t.rising
  simp only [last?, get?_eq_some_iff]
  generalize t.entries = l at rises
  induction l with
  | nil => simp
  | cons p rest ih =>
    have hr := List.pairwise_cons.1 rises
    cases rest with
    | nil =>
      simp only [List.getLast?_singleton, Option.some.injEq, List.mem_singleton]
      constructor
      · rintro rfl
        refine ⟨rfl, ?_⟩
        rintro k' v' h
        cases h
        exact irrefl k
      · rintro ⟨h, -⟩
        exact h.symm
    | cons q rest =>
      rw [List.getLast?_cons_cons]
      refine (ih hr.2).trans ?_
      constructor
      · rintro ⟨hm, hlast⟩
        refine ⟨List.mem_cons_of_mem _ hm, fun k' v' h' => ?_⟩
        rcases List.mem_cons.1 h' with e | h'
        · subst e
          exact asymm (hr.1 _ hm)
        · exact hlast k' v' h'
      · rintro ⟨hm, hlast⟩
        rcases List.mem_cons.1 hm with e | hm
        · subst e
          exact absurd (hr.1 q List.mem_cons_self)
            (hlast q.1 q.2 (List.mem_cons_of_mem _ List.mem_cons_self))
        · exact ⟨hm, fun k' v' h' => hlast k' v' (List.mem_cons_of_mem _ h')⟩

theorem first?_eq_none_iff : t.first? = none ↔ ∀ k, t.get? k = none := by
  rw [← isEmpty_iff]
  simp [first?, isEmpty]

theorem not_before_of_first? (h : t.first? = some (k, v)) :
    t.get? k = some v ∧ ∀ k' v', t.get? k' = some v' → ¬ before k' k := by
  have hrises := t.rising
  simp only [get?_eq_some_iff, first?] at h ⊢
  cases hl : t.entries with
  | nil =>
    rw [hl] at h
    cases h
  | cons p rest =>
    rw [hl] at h hrises
    cases h
    rw [List.pairwise_cons] at hrises
    constructor
    · exact List.mem_cons_self
    · intro k' v' h'
      rcases List.mem_cons.1 h' with heq | hrest
      · cases heq
        exact irrefl k
      · exact asymm (hrises.1 (k', v') hrest)

theorem insert_insert (t : Table α β) (k : α) (v w : β) :
    (t.insert k v).insert k w = t.insert k w := by
  classical
  refine ext_get? fun k' => ?_
  simp only [get?_insert]
  split <;> rfl

theorem insert_of_get? (h : t.get? k = some v) : t.insert k v = t := by
  classical
  refine ext_get? fun k' => ?_
  rw [get?_insert]
  split
  next e => rw [e, h]
  next => rfl

/-! ## Putting in several entries -/

theorem insertAll_cons (t : Table α β) (p : α × β) (l : List (α × β)) :
    t.insertAll (p :: l) = (t.insert p.1 p.2).insertAll l := rfl

theorem get?_insertAll_of_not_mem (t : Table α β) {l : List (α × β)}
    (h : ∀ p ∈ l, p.1 ≠ k) : (t.insertAll l).get? k = t.get? k := by
  induction l generalizing t with
  | nil => rfl
  | cons p l ih =>
    rw [insertAll_cons, ih _ fun q hq => h q (List.mem_cons_of_mem _ hq)]
    exact get?_insert_of_ne _ _ (h p List.mem_cons_self).symm

theorem get?_insertAll_of_mem (t : Table α β) {l : List (α × β)}
    (h : ∃ p ∈ l, p.1 = k) : ∃ v, (t.insertAll l).get? k = some v ∧ (k, v) ∈ l := by
  classical
  induction l generalizing t with
  | nil =>
    obtain ⟨p, hp, -⟩ := h
    cases hp
  | cons p l ih =>
    rw [insertAll_cons]
    by_cases hl : ∃ q ∈ l, q.1 = k
    · obtain ⟨v, hv, hm⟩ := ih (t.insert p.1 p.2) hl
      exact ⟨v, hv, List.mem_cons_of_mem _ hm⟩
    · have hp : p.1 = k := by
        obtain ⟨q, hq, he⟩ := h
        rcases List.mem_cons.1 hq with rfl | hq
        · exact he
        · exact absurd ⟨q, hq, he⟩ hl
      refine ⟨p.2, ?_, hp ▸ List.mem_cons_self⟩
      rw [get?_insertAll_of_not_mem _ fun q hq e => hl ⟨q, hq, e⟩, ← hp]
      exact get?_insert_self _ _ _

theorem contains_insertAll (t : Table α β) {l : List (α × β)} :
    (t.insertAll l).contains k = true ↔ t.contains k = true ∨ ∃ p ∈ l, p.1 = k := by
  by_cases h : ∃ p ∈ l, p.1 = k
  · obtain ⟨v, hv, -⟩ := t.get?_insertAll_of_mem h
    exact iff_of_true (contains_iff.2 ⟨v, hv⟩) (.inr h)
  · rw [or_iff_left h, contains, t.get?_insertAll_of_not_mem fun p hp e => h ⟨p, hp, e⟩]
    rfl

theorem mem_of_get?_ofList {l : List (α × β)} (h : (ofList l).get? k = some v) : (k, v) ∈ l := by
  by_cases hk : ∃ p ∈ l, p.1 = k
  · obtain ⟨v', hv', hm⟩ := (empty : Table α β).get?_insertAll_of_mem hk
    cases h.symm.trans hv'
    exact hm
  · have hn := (empty : Table α β).get?_insertAll_of_not_mem fun p hp e => hk ⟨p, hp, e⟩
    cases h.symm.trans hn

theorem get?_insertAll_congr (t t' : Table α β) {l : List (α × β)}
    (h : (∃ p ∈ l, p.1 = k) ∨ t.get? k = t'.get? k) :
    (t.insertAll l).get? k = (t'.insertAll l).get? k := by
  classical
  induction l generalizing t t' with
  | nil =>
    rcases h with ⟨p, hp, -⟩ | h
    · cases hp
    · exact h
  | cons p l ih =>
    refine ih _ _ ?_
    by_cases hl : ∃ q ∈ l, q.1 = k
    · exact .inl hl
    · right
      rw [get?_insert, get?_insert]
      split
      next => rfl
      next hk =>
        rcases h with ⟨q, hq, he⟩ | h
        · rcases List.mem_cons.1 hq with rfl | hq
          · exact absurd he.symm hk
          · exact absurd ⟨q, hq, he⟩ hl
        · exact h

theorem get?_insertAll_of_distinct (t : Table α β) {l : List (α × β)}
    (hl : ∀ v v', (k, v) ∈ l → (k, v') ∈ l → v = v') (h : (k, v) ∈ l) :
    (t.insertAll l).get? k = some v := by
  obtain ⟨v', hv', hm⟩ := t.get?_insertAll_of_mem ⟨(k, v), h, rfl⟩
  rw [hv', hl v' v hm h]

theorem insertAll_entries (t : Table α β) : (empty : Table α β).insertAll t.entries = t := by
  refine ext_get? fun k => ?_
  cases hk : t.get? k with
  | some v =>
    refine get?_insertAll_of_distinct _ ?_ ((get?_eq_some_iff t).1 hk)
    intro v₁ v₂ h₁ h₂
    rw [← get?_eq_some_iff] at h₁ h₂
    exact Option.some.inj (h₁.symm.trans h₂)
  | none =>
    refine get?_insertAll_of_not_mem _ ?_
    rintro ⟨k', v⟩ hm rfl
    rw [← get?_eq_some_iff, hk] at hm
    cases hm

/-! ## Lists that are sorted by a key -/

theorem pairwise_mergeSort_key (key : γ → α) (l : List γ) :
    (l.mergeSort fun a b => !decide (before (key b) (key a))).Pairwise
      fun a b => ¬ before (key b) (key a) := by
  refine (List.pairwise_mergeSort (fun a b c hab hbc => ?_) (fun a b => ?_) l).imp ?_
  · simp only [Bool.not_eq_true', decide_eq_false_iff_not] at hab hbc ⊢
    intro hca
    by_cases hba : before (key b) (key c)
    · exact hab (trans hba hca)
    · exact hab (connected hba hbc ▸ hca)
  · by_cases hba : before (key b) (key a)
    · simp [asymm hba]
    · simp [hba]
  · simp

end ReadTracking.Table
