import ReadTracking.Proofs.ByteTables

/-!
# A byte table keeps the laws of a storage

The rows of a byte table are the entries of one map, so the map that is listed is that map.
Entries that move no marker back are put into the map one after the other, none of them is turned
down, and the batch is carried out.  A room that is forgotten is found by the beginning of its keys.
-/

set_option autoImplicit false

namespace ReadTracking

open Backing

namespace MarkMap

theorem marksOf_listed (m : MarkMap) : MarkerBook.marksOf m.listed = m := by
  refine Table.ext_get? fun slot => Option.ext fun mark => ?_
  have hpair : ∀ mark, (slot, mark) ∈ m.listed.map (fun e => (e.slot, e.mark)) ↔
      m.get? slot = some mark := by
    intro mark
    rw [List.mem_map]
    constructor
    · rintro ⟨e, he, heq⟩
      cases heq
      exact MarkMap.mem_listed.1 he
    · exact fun h => ⟨⟨slot, mark⟩, MarkMap.mem_listed.2 h, rfl⟩
  refine ⟨fun h => (hpair mark).1 (Table.mem_of_get?_ofList h), fun h => ?_⟩
  obtain ⟨mark', hm, hin⟩ := (Table.empty : MarkMap).get?_insertAll_of_mem
    ⟨(slot, mark), (hpair mark).2 h, rfl⟩
  cases h.symm.trans ((hpair mark').1 hin)
  exact hm

theorem put_of_noneBehind {m : MarkMap} {e : Entry}
    (h : ∀ mark, m.get? e.slot = some mark → mark.sequence ≤ e.mark.sequence) :
    m.put e = .ok (m.insert e.slot e.mark) := by
  unfold put
  cases hm : m.get? e.slot with
  | none => rfl
  | some old =>
    have hle := h old hm
    exact if_neg (Nat.not_lt.2 hle)

theorem putAll_of_noneBehind {m : MarkMap} {es : List Entry} (h : NoneBehind m es) :
    m.putAll es = .ok (m.insertAll (es.map Entry.pair)) := by
  induction es generalizing m with
  | nil => rfl
  | cons e es ih =>
    rw [putAll, put_of_noneBehind h.1]
    exact ih h.2

end MarkMap

namespace ByteTable

variable {t : ByteTable} {m : MarkMap}

def markers (t : ByteTable) : MarkMap := MarkerBook.marksOf t.entries

theorem Holds.markers (h : t.Holds m) : t.markers = m := by
  rw [ByteTable.markers, h.entries_eq, m.marksOf_listed]

theorem Holds.storeAll_of_noneBehind (h : t.Holds m) {es : List Entry}
    (hes : ∀ e ∈ es, capacity.entry e) (hb : NoneBehind m es) :
    ∃ t', t.storeAll es = (.ok (), t') ∧ t'.Holds (m.insertAll (es.map Entry.pair)) := by
  have hput := MarkMap.putAll_of_noneBehind hb
  rcases h.writeAll hes with ⟨t', m', hw, hp, h'⟩ | ⟨why, -, hp⟩
  · cases hput.symm.trans hp
    exact ⟨t', by rw [ByteTable.storeAll, hw], h'⟩
  · cases hput.symm.trans hp

instance : Viewed ByteTable where
  capacity := capacity
  sound t := ∃ m, t.Holds m
  contents := markers
  clock h := h
  fits := by
    rintro t slot mark ⟨m, h⟩ hm
    rw [h.markers] at hm
    exact h.fits hm
  list_ok := by
    rintro t es t' hs h
    cases h
    exact ⟨hs, rfl, rfl⟩
  forget_ok := by
    rintro t room n t' ⟨m, h⟩ hroom hcall
    cases hcall
    have hleft := h.erase hroom
    refine ⟨⟨_, hleft⟩, ?_⟩
    rw [h.markers]
    exact hleft.markers

theorem lawful_storeAll {es : List Entry} {t' : ByteTable} {answer : Except StorageError Unit}
    (hs : Viewed.sound t) (hes : ∀ e ∈ es, capacity.entry e) (hb : NoneBehind t.markers es)
    (hcall : t.storeAll es = (answer, t')) :
    answer = .ok () ∧ Viewed.sound t' ∧ t'.markers = t.markers.insertAll (es.map Entry.pair) := by
  obtain ⟨m, h⟩ := hs
  rw [h.markers] at hb ⊢
  obtain ⟨t₁, hstore, h₁⟩ := h.storeAll_of_noneBehind hes hb
  cases hstore.symm.trans hcall
  exact ⟨rfl, ⟨_, h₁⟩, h₁.markers⟩

instance : Lawful ByteTable where
  store := {
    ok := by
      intro t e t' hs he hb hcall
      exact (lawful_storeAll hs (List.forall_mem_singleton.2 he) hb hcall).2
    error := by
      intro t e why t' hs he hb hcall
      cases (lawful_storeAll hs (List.forall_mem_singleton.2 he) hb hcall).1 }
  storeAll_ok hs hes hb hcall := (lawful_storeAll hs hes hb hcall).2
  storeAll_error hs hes hb hcall := by
    cases (lawful_storeAll hs hes hb hcall).1

end ByteTable

end ReadTracking
