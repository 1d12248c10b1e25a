import ReadTracking.Proofs.ByteTableLaws

/-!
# Storages that clear a room

Whatever a storage is asked to write, and whether the write succeeds or fails, it holds some marker
for every slot afterwards or none.  When it forgets a room it drops the markers of that room, and
no others.  Memory does so, and so does a byte table, which finds the room by the beginning of the
keys; faults and rations around a storage fail some of its calls and change nothing else.
-/

set_option autoImplicit false

namespace ReadTracking

class Backing.Clears (σ : Type) [Backing σ] extends Viewed σ where
  store : ∀ {s e}, sound s → capacity.entry e → sound (Backing.store e s).2
  storeAll : ∀ {s es}, sound s → (∀ e ∈ es, capacity.entry e) → sound (Backing.storeAll es s).2
  forget : ∀ {s}, sound s → ∀ room, sound (Backing.forget room s).2

open Backing

instance : Clears Shelf where
  store _ _ := trivial
  storeAll _ _ := trivial
  forget _ _ := trivial

namespace ByteTable

variable {t : ByteTable} {m : MarkMap}

theorem Holds.eraseKeys (h : t.Holds m) (keys : List (List UInt8)) :
    (⟨keys.foldl Table.erase t.rows⟩ : ByteTable).Holds
      (m.filter fun slot _ => decide (slotKey slot ∉ keys)) := by
  have hkept : ∀ {slot mark}, (m.filter fun slot _ => decide (slotKey slot ∉ keys)).get? slot =
      some mark ↔ m.get? slot = some mark ∧ slotKey slot ∉ keys := by
    intro slot mark
    rw [Table.get?_filter, Option.filter_eq_some_iff, decide_eq_true_iff]
  refine ⟨fun hm => h.fits (hkept.1 hm).1, fun {key value} => ?_⟩
  rw [Table.get?_foldl_erase_eq_some_iff, h.rows]
  constructor
  · rintro ⟨hkey, e, hm, hrow⟩
    obtain ⟨rfl, -⟩ := Prod.mk.inj hrow
    exact ⟨e, hkept.2 ⟨hm, hkey⟩, hrow⟩
  · rintro ⟨e, hm, hrow⟩
    obtain ⟨hm, hkey⟩ := hkept.1 hm
    obtain ⟨rfl, -⟩ := Prod.mk.inj hrow
    exact ⟨hkey, e, hm, hrow⟩

instance : Clears ByteTable where
  store := by
    rintro t e ⟨m, h⟩ he
    refine ⟨_, (h.stored fun e' he' => ?_).2⟩
    rw [List.mem_singleton.1 he']
    exact he
  storeAll := by
    rintro t es ⟨m, h⟩ hes
    exact ⟨_, (h.stored hes).2⟩
  forget := by
    rintro t ⟨m, h⟩ room
    exact ⟨_, h.eraseKeys _⟩

end ByteTable

/-! ## Faults and rations -/

variable {σ : Type} [Backing σ] [Clears σ]

instance : Clears (Faulty σ) where
  store hs he := (Faulty.passes _ _).keeps hs (Clears.store hs he)
  storeAll hs hes := (Faulty.passes _ _).keeps hs (Clears.storeAll hs hes)
  forget hs room := (Faulty.passes _ _).keeps hs (Clears.forget hs room)

instance : Clears (Rationed σ) where
  store hs he := (Rationed.passes _).keeps hs (Clears.store hs he)
  storeAll {r es} hs hes := by
    show Viewed.sound (storeEach (fun e => Rationed.call (Backing.store e)) es r).2.inner
    induction es generalizing r with
    | nil => exact hs
    | cons e es ih =>
      have hone : Viewed.sound (Rationed.call (Backing.store e) r).2.inner :=
        (Rationed.passes _).keeps hs (Clears.store hs (hes e List.mem_cons_self))
      simp only [storeEach]
      split
      next r' hcall =>
        rw [hcall] at hone
        exact ih hone fun e he => hes e (List.mem_cons_of_mem _ he)
      next why r' hcall =>
        rw [hcall] at hone
        exact hone
  forget hs room := (Rationed.passes _).keeps hs (Clears.forget hs room)

end ReadTracking
