import ReadTracking.Bytes.SlotKey

/-!
# Keys of slots tell slots apart

The key of a slot begins with the length of its room's name, so of two rooms neither key is a
beginning of the other.  What follows the room tells the visibility and the thread.  So different
slots have different keys, and the keys that begin with the key of a room are those of the slots
of that room.  In the order of the keys they stand next to each other.
-/

set_option autoImplicit false

namespace ReadTracking

namespace KeyOrder

variable {α β : Type} [KeyOrder α]

/-! ## Beginnings of keys -/

theorem not_before_of_isPrefix {start key : List α} (h : start <+: key) : ¬ before key start := by
  obtain ⟨rest, rfl⟩ := h
  induction start with
  | nil =>
    intro hb
    cases rest <;> exact hb
  | cons a start ih =>
    rintro (hb | ⟨-, hb⟩)
    · exact irrefl a hb
    · exact ih hb

/-- What lies between a beginning and a key that begins with it begins with it too. -/
theorem isPrefix_of_between {start key key' : List α} (hstart : ¬ before key start)
    (hkey : before key key') (h : start <+: key') : start <+: key := by
  induction start generalizing key key' with
  | nil => exact List.nil_prefix
  | cons a start ih =>
    obtain ⟨rest, rfl⟩ := h
    cases key with
    | nil => exact absurd trivial hstart
    | cons b key =>
      -- The first bytes agree, as neither may come before the other.
      have hab : ¬ before b a := fun hb => hstart (.inl hb)
      obtain ⟨hba, hrest⟩ := Or.resolve_left hkey hab
      obtain rfl := connected hab hba
      have htail : ¬ before key start := fun hb => hstart (.inr ⟨irrefl b, hb⟩)
      obtain ⟨rest', rfl⟩ := ih htail hrest ⟨rest, rfl⟩
      exact ⟨rest', rfl⟩

variable [BEq α] [LawfulBEq α] {start : List α} {rows : List (List α × β)}

theorem takeWhile_isPrefixOf (hrising : rows.Pairwise fun p q => before p.1 q.1)
    (hrows : ∀ row ∈ rows, ¬ before row.1 start) :
    rows.takeWhile (fun row => start.isPrefixOf row.1) =
      rows.filter fun row => start.isPrefixOf row.1 := by
  induction rows with
  | nil => rfl
  | cons row rows ih =>
    obtain ⟨hfirst, hrest⟩ := List.pairwise_cons.1 hrising
    by_cases h : start.isPrefixOf row.1 = true
    · simp only [List.takeWhile_cons, List.filter_cons, h, if_true,
        ih hrest fun r hr => hrows r (List.mem_cons_of_mem _ hr)]
    · simp only [List.takeWhile_cons, List.filter_cons, h, Bool.false_eq_true, if_false]
      refine (List.filter_eq_nil_iff.2 fun r hr hp => h ?_).symm
      rw [List.isPrefixOf_iff_prefix] at hp ⊢
      exact isPrefix_of_between (hrows row List.mem_cons_self) (hfirst r hr) hp

/-- In rising rows, the keys that begin with a key stand next to each other, from the first that
is not below it. -/
theorem takeWhile_dropWhile_isPrefixOf (hrising : rows.Pairwise fun p q => before p.1 q.1) :
    ((rows.dropWhile fun row => decide (before row.1 start)).takeWhile
      fun row => start.isPrefixOf row.1) = rows.filter fun row => start.isPrefixOf row.1 := by
  induction rows with
  | nil => rfl
  | cons row rows ih =>
    obtain ⟨hfirst, hrest⟩ := List.pairwise_cons.1 hrising
    by_cases h : before row.1 start
    · have hnot : ¬ start.isPrefixOf row.1 = true := by
        rw [List.isPrefixOf_iff_prefix]
        exact fun hp => not_before_of_isPrefix hp h
      simp only [List.dropWhile_cons, List.filter_cons, h, decide_true, hnot, if_true,
        Bool.false_eq_true, if_false, ih hrest]
    · simp only [List.dropWhile_cons, h, decide_false, Bool.false_eq_true, if_false]
      refine takeWhile_isPrefixOf hrising fun r hr => ?_
      rcases List.mem_cons.1 hr with rfl | hr
      · exact h
      · exact fun hb => h (trans (hfirst r hr) hb)

end KeyOrder

/-! ## Keys of slots -/

theorem bytesBigEndian_inj {width n m : Nat} (hn : n < Nat.pow 256 width)
    (hm : m < Nat.pow 256 width) (h : bytesBigEndian width n = bytesBigEndian width m) :
    n = m := by
  have he := congrArg natBigEndian h
  rwa [natBigEndian_bytesBigEndian, natBigEndian_bytesBigEndian, Nat.mod_eq_of_lt hn,
    Nat.mod_eq_of_lt hm] at he

def RoomId.Fits (room : RoomId) : Prop := (utf8 room.text).length < 1 <<< 32

instance (room : RoomId) : Decidable room.Fits := Nat.decLt _ _

variable {room room' : RoomId} {s s' : Slot}

/-- The key of a room ends where it says, so nothing that follows it can be mistaken for it. -/
theorem roomKey_append_inj (hroom : room.Fits) (hroom' : room'.Fits) {rest rest' : List UInt8}
    (h : roomKey room ++ rest = roomKey room' ++ rest') : room = room' ∧ rest = rest' := by
  simp only [roomKey, List.append_assoc] at h
  have hlengths : (bytesBigEndian 4 (utf8 room.text).length).length =
      (bytesBigEndian 4 (utf8 room'.text).length).length := by
    rw [length_bytesBigEndian, length_bytesBigEndian]
  obtain ⟨hlength, h⟩ := List.append_inj h hlengths
  have hwidth : ∀ {room : RoomId}, room.Fits → (utf8 room.text).length < Nat.pow 256 4 := id
  obtain ⟨htext, hrest⟩ :=
    List.append_inj h (bytesBigEndian_inj (hwidth hroom) (hwidth hroom') hlength)
  refine ⟨?_, hrest⟩
  cases room
  cases room'
  exact congrArg RoomId.mk (utf8_inj.1 htext)

theorem threadKey_inj {thread thread' : Option EventId}
    (h : threadKey thread = threadKey thread') : thread = thread' := by
  cases thread with
  | none =>
    cases thread' with
    | none => rfl
    | some root' => cases h
  | some root =>
    cases thread' with
    | none => cases h
    | some root' =>
      cases root
      cases root'
      exact congrArg (some ∘ EventId.mk) (utf8_inj.1 (List.cons.inj h).2)

theorem slotKey_inj (hs : s.scope.room.Fits) (hs' : s'.scope.room.Fits)
    (h : slotKey s = slotKey s') : s = s' := by
  obtain ⟨hroom, hrest⟩ := roomKey_append_inj hs hs' h
  obtain ⟨htag, hthread⟩ := List.cons.inj hrest
  have hvisibility : s.visibility = s'.visibility := by
    cases hv : s.visibility <;> cases hv' : s'.visibility <;> rw [hv, hv'] at htag <;>
      first | rfl | exact absurd htag (by decide)
  obtain ⟨⟨room, thread⟩, visibility⟩ := s
  obtain ⟨⟨room', thread'⟩, visibility'⟩ := s'
  cases hroom
  cases hvisibility
  cases threadKey_inj hthread
  rfl

/-- The keys that begin with the key of a room are those of its slots. -/
theorem roomKey_isPrefixOf_slotKey (hroom : room.Fits) (hs : s.scope.room.Fits) :
    (roomKey room).isPrefixOf (slotKey s) = (s.scope.room == room) := by
  rw [Bool.eq_iff_iff, List.isPrefixOf_iff_prefix, beq_iff_eq]
  constructor
  · rintro ⟨rest, h⟩
    exact (roomKey_append_inj hroom hs h).1.symm
  · rintro rfl
    exact ⟨_, rfl⟩

end ReadTracking
