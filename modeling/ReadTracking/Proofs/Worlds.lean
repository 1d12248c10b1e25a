import ReadTracking.Proofs.Tables
import ReadTracking.Reference.World

/-!
# The plain account in order

What happens in a room has rising sequences, no text is used twice in it, and threads hang off
messages that happened before.  Every gesture keeps that.  A room reads a scope up to a sequence
when its one marker lies there or further; gestures only ever add to that.
-/

set_option autoImplicit false

namespace ReadTracking.Reference

open KeyOrder

/-! ## Names -/

def roomId (i : Fin roomCount) : RoomId := Server.roomNamed (roomName i)

theorem roomId_injective : ∀ {i j : Fin roomCount}, roomId i = roomId j → i = j := by decide

theorem roomName_injective : ∀ {i j : Fin roomCount}, roomName i = roomName j → i = j := by decide

theorem toString_injective {m n : Nat} (h : toString m = toString n) : m = n := by
  have hdigits : Nat.toDigits 10 m = Nat.toDigits 10 n := by
    have := congrArg String.toList h
    simpa only [Nat.toString_eq_repr, Nat.toList_repr] using this
  have := congrArg (fun digits => Nat.ofDigitChars 10 digits 0) hdigits
  simpa only [Nat.ofDigitChars_ten_toDigits] using this

theorem eventNumbered_injective {m n : Nat}
    (h : Server.eventNumbered m = Server.eventNumbered n) : m = n :=
  toString_injective ((String.append_right_inj "$").1 (congrArg EventId.text h))

theorem number_of_label_eq {stem stem' : String} {m n : Nat} (hs : stem.length = 1)
    (hs' : stem'.length = 1) (h : stem ++ toString m = stem' ++ toString n) : m = n := by
  have hl : stem.toList ++ (toString m).toList = stem'.toList ++ (toString n).toList := by
    simpa using congrArg String.toList h
  have hlen : stem.toList.length = stem'.toList.length := by
    rw [String.length_toList, String.length_toList, hs, hs']
  exact toString_injective (String.toList_inj.1 (List.append_inj hl hlen).2)

def Happening.id (h : Happening) : EventId := Server.eventNumbered h.sequence

/-! ## Rooms -/

namespace Room

variable (r : Room)

def rootId (place : Nat) : EventId := (r.happenings[place]?.map Happening.id).getD default

def HasPlace (thread : Option Nat) : Prop :=
  ∀ place, thread = some place → place < r.happenings.length

def Reads (thread : Option Nat) (q : Nat) : Prop := ∃ m, r.marks.get? thread = some m ∧ q ≤ m

variable {r}

theorem reads_advance {thread thread' : Option Nat} {q q' : Nat} :
    (r.advance thread q).Reads thread' q' ↔ r.Reads thread' q' ∨ thread' = thread ∧ q' ≤ q := by
  unfold Reads advance
  by_cases e : thread' = thread
  · subst e
    simp only [Table.get?_insert_self, Option.some.injEq, exists_eq_left', true_and]
    cases r.marks.get? thread' with
    | none => simp
    | some m =>
      simp only [Option.some.injEq, exists_eq_left']
      omega
  · simp only [Table.get?_insert_of_ne _ _ e, e, false_and, or_false]

theorem head_eq_some_iff {thread : Option Nat} {q : Nat} : r.head thread = some q ↔
    (∃ h ∈ r.happenings, h.thread = thread ∧ h.sequence = q) ∧
      ∀ h ∈ r.happenings, h.thread = thread → h.sequence ≤ q := by
  unfold head inScope
  rw [List.max?_eq_some_iff]
  simp only [List.mem_map, List.mem_filter, beq_iff_eq]
  constructor
  · rintro ⟨⟨h, ⟨hm, ht⟩, hq⟩, hmax⟩
    exact ⟨⟨h, hm, ht, hq⟩, fun h' hm' ht' => hmax _ ⟨h', ⟨hm', ht'⟩, rfl⟩⟩
  · rintro ⟨⟨h, hm, ht, hq⟩, hmax⟩
    refine ⟨⟨h, ⟨hm, ht⟩, hq⟩, ?_⟩
    rintro _ ⟨h', ⟨hm', ht'⟩, rfl⟩
    exact hmax h' hm' ht'

theorem head_eq_none_iff {thread : Option Nat} :
    r.head thread = none ↔ ∀ h ∈ r.happenings, h.thread ≠ thread := by
  unfold head inScope
  rw [List.max?_eq_none_iff, List.map_eq_nil_iff, List.filter_eq_nil_iff]
  simp only [beq_iff_eq, ne_eq]

@[simp] theorem happenings_advanceToHead (thread : Option Nat) :
    (r.advanceToHead thread).happenings = r.happenings := by
  unfold advanceToHead
  split <;> rfl

theorem reads_advanceToHead {thread thread' : Option Nat} {q : Nat} :
    (r.advanceToHead thread).Reads thread' q ↔ r.Reads thread' q ∨
      thread' = thread ∧ ∃ h ∈ r.happenings, h.thread = thread ∧ q ≤ h.sequence := by
  unfold advanceToHead
  split
  next m hm =>
    obtain ⟨⟨h, hh, ht, hs⟩, hmax⟩ := head_eq_some_iff.1 hm
    rw [reads_advance]
    refine or_congr_right (and_congr_right fun _ => ?_)
    constructor
    · exact fun hq => ⟨h, hh, ht, hs ▸ hq⟩
    · rintro ⟨h', hh', ht', hq⟩
      exact Nat.le_trans hq (hmax h' hh' ht')
  next hn =>
    constructor
    · exact .inl
    · rintro (hr | ⟨-, h, hh, ht, -⟩)
      · exact hr
      · exact absurd ht (head_eq_none_iff.1 hn h hh)

theorem mem_roots {place : Nat} :
    place ∈ r.roots ↔ ∃ h ∈ r.happenings, h.thread = some place := by
  unfold roots
  rw [Table.mem_keys]
  constructor
  · rintro ⟨v, hv⟩
    obtain ⟨place', hp, he⟩ := List.mem_map.1 (Table.mem_of_get?_ofList hv)
    cases he
    exact List.mem_filterMap.1 hp
  · intro h
    obtain ⟨v, hv, -⟩ := (Table.empty : Table Nat Unit).get?_insertAll_of_mem
      ⟨(place, ()), List.mem_map_of_mem (f := (·, ())) (List.mem_filterMap.2 h), rfl⟩
    exact ⟨v, hv⟩

theorem pick_eq_some {n : UInt8} {fits : Happening → Bool} {h : Happening} {place : Nat}
    (hp : r.pick n fits = some (h, place)) :
    r.happenings[place]? = some h ∧ fits h = true := by
  have hm := List.mem_of_getElem? hp
  rw [List.mem_filter, List.mem_zipIdx_iff_getElem?] at hm
  exact hm

end Room

/-! ## Worlds -/

namespace World

abbrev room (w : World) (i : Fin roomCount) : Room := getElem w.rooms i i.isLt

theorem room_change (w : World) (i j : Fin roomCount) (f : Room → Room) :
    (w.change i f).room j = if j = i then f (w.room i) else w.room j := by
  show (w.rooms.set i (f (w.room i)))[j] = _
  by_cases e : j = i
  · subst e
    simp
  · have hv : i.val ≠ j.val := fun h => e (Fin.ext h.symm)
    rw [if_neg e]
    simp [Vector.getElem_set_ne, hv]

def scope (w : World) (i : Fin roomCount) (thread : Option Nat) : Scope :=
  ⟨roomId i, thread.map (w.room i).rootId⟩

def add (w : World) (i : Fin roomCount) (h : Happening) : World :=
  ({ w with nextSequence := w.nextSequence + 1 } : World).change i fun r =>
    { r with happenings := r.happenings ++ [h] }

structure Orderly (w : World) : Prop where
  rising : ∀ i : Fin roomCount, (w.room i).happenings.Pairwise (·.sequence < ·.sequence)
  numbered : ∀ {i : Fin roomCount} {h}, h ∈ (w.room i).happenings → h.sequence < w.nextSequence
  apart : ∀ {i j : Fin roomCount} {h h'}, h ∈ (w.room i).happenings →
    h' ∈ (w.room j).happenings → h.sequence = h'.sequence → i = j
  rooted : ∀ {i : Fin roomCount} {h place}, h ∈ (w.room i).happenings →
    h.thread = some place → ∃ root, (w.room i).happenings[place]? = some root ∧
      root.canRoot = true ∧ root.sequence < h.sequence
  main : ∀ {i : Fin roomCount} {h}, h ∈ (w.room i).happenings →
    h.canRoot = true ∨ h.role = .join → h.thread = none
  threaded : ∀ {i : Fin roomCount} {h}, h ∈ (w.room i).happenings →
    h.role = .threadReply → ∃ place, h.thread = some place
  labelled : ∀ {i : Fin roomCount} {h}, h ∈ (w.room i).happenings →
    h.targetable = true → ∃ body, h.body = some body
  given : ∀ {i : Fin roomCount} {h body}, h ∈ (w.room i).happenings → h.body = some body →
    ∃ stem n, stem.length = 1 ∧ n ≤ w.labels ∧ body = stem ++ toString n
  distinct : ∀ {i : Fin roomCount} {h h' body}, h ∈ (w.room i).happenings →
    h' ∈ (w.room i).happenings → h.body = some body → h'.body = some body → h = h'
  placed : ∀ {i : Fin roomCount} {thread m}, (w.room i).marks.get? thread = some m →
    (w.room i).HasPlace thread

structure Fresh (w : World) (i : Fin roomCount) (h : Happening) : Prop where
  sequence : h.sequence = w.nextSequence
  rooted : ∀ {place}, h.thread = some place → ∃ root,
    (w.room i).happenings[place]? = some root ∧ root.canRoot = true
  main : h.canRoot = true ∨ h.role = .join → h.thread = none
  threaded : h.role = .threadReply → ∃ place, h.thread = some place
  labelled : h.targetable = true → ∃ body, h.body = some body
  given : ∀ {body}, h.body = some body →
    (∃ stem n, stem.length = 1 ∧ n ≤ w.labels ∧ body = stem ++ toString n) ∧
      ∀ h' ∈ (w.room i).happenings, h'.body ≠ some body

variable {w : World} {i j : Fin roomCount}

theorem happenings_add (w : World) (i j : Fin roomCount) (h : Happening) :
    ((w.add i h).room j).happenings =
      if j = i then (w.room i).happenings ++ [h] else (w.room j).happenings := by
  rw [add, room_change]
  split <;> rfl

theorem marks_add (w : World) (i j : Fin roomCount) (h : Happening) :
    ((w.add i h).room j).marks = (w.room j).marks := by
  rw [add, room_change]
  split
  next e => rw [e]
  next => rfl

theorem mem_add {h h' : Happening} : h' ∈ ((w.add i h).room j).happenings ↔
    h' ∈ (w.room j).happenings ∨ j = i ∧ h' = h := by
  rw [happenings_add]
  split
  next e =>
    subst e
    simp
  next e => simp [e]

theorem getElem?_add {h root : Happening} {place : Nat}
    (hp : (w.room j).happenings[place]? = some root) :
    ((w.add i h).room j).happenings[place]? = some root := by
  rw [happenings_add]
  split
  next e =>
    subst e
    rw [List.getElem?_append_left (List.getElem?_eq_some_iff.1 hp).1]
    exact hp
  next => exact hp

theorem Orderly.lt_of_fresh (hw : w.Orderly) {h h' : Happening} (hf : w.Fresh i h)
    (hm : h' ∈ (w.room j).happenings) : h'.sequence < h.sequence :=
  hf.sequence ▸ hw.numbered hm

theorem Orderly.add (hw : w.Orderly) {h : Happening} (hf : w.Fresh i h) :
    (w.add i h).Orderly := by
  have hnew : h.sequence < w.nextSequence + 1 := hf.sequence ▸ Nat.lt_succ_self _
  constructor
  · intro k
    rw [happenings_add]
    split
    next e =>
      refine List.pairwise_append.2 ⟨hw.rising i, List.pairwise_singleton _ _, ?_⟩
      intro h' hm' x hx
      rw [List.mem_singleton.1 hx]
      exact hw.lt_of_fresh hf hm'
    next => exact hw.rising k
  · intro k h' hm
    rcases mem_add.1 hm with hm | ⟨-, rfl⟩
    · exact Nat.lt_succ_of_lt (hw.numbered hm)
    · exact hnew
  · intro k l h₁ h₂ hm₁ hm₂ he
    rcases mem_add.1 hm₁ with ho₁ | ⟨rfl, rfl⟩
    · rcases mem_add.1 hm₂ with ho₂ | ⟨rfl, rfl⟩
      · exact hw.apart ho₁ ho₂ he
      · exact absurd he (Nat.ne_of_lt (hw.lt_of_fresh hf ho₁))
    · rcases mem_add.1 hm₂ with ho₂ | ⟨rfl, rfl⟩
      · exact absurd he.symm (Nat.ne_of_lt (hw.lt_of_fresh hf ho₂))
      · rfl
  · intro k h' place hm ht
    rcases mem_add.1 hm with hm | ⟨rfl, rfl⟩
    · obtain ⟨root, hr, hroot⟩ := hw.rooted hm ht
      exact ⟨root, getElem?_add hr, hroot⟩
    · obtain ⟨root, hr, hroot⟩ := hf.rooted ht
      exact ⟨root, getElem?_add hr, hroot, hw.lt_of_fresh hf (List.mem_of_getElem? hr)⟩
  · intro k h' hm
    rcases mem_add.1 hm with hm | ⟨rfl, rfl⟩
    · exact hw.main hm
    · exact hf.main
  · intro k h' hm
    rcases mem_add.1 hm with hm | ⟨rfl, rfl⟩
    · exact hw.threaded hm
    · exact hf.threaded
  · intro k h' hm
    rcases mem_add.1 hm with hm | ⟨rfl, rfl⟩
    · exact hw.labelled hm
    · exact hf.labelled
  · intro k h' body hm hb
    rcases mem_add.1 hm with hm | ⟨rfl, rfl⟩
    · exact hw.given hm hb
    · exact (hf.given hb).1
  · intro k h₁ h₂ body hm₁ hm₂ hb₁ hb₂
    rcases mem_add.1 hm₁ with ho₁ | ⟨rfl, rfl⟩
    · rcases mem_add.1 hm₂ with ho₂ | ⟨rfl, rfl⟩
      · exact hw.distinct ho₁ ho₂ hb₁ hb₂
      · exact absurd hb₁ ((hf.given hb₂).2 h₁ ho₁)
    · rcases mem_add.1 hm₂ with ho₂ | ⟨-, rfl⟩
      · exact absurd hb₂ ((hf.given hb₁).2 h₂ ho₂)
      · rfl
  · intro k thread m hm place ht
    rw [marks_add] at hm
    have hlt := hw.placed hm place ht
    rw [happenings_add]
    split
    next e =>
      subst e
      rw [List.length_append]
      omega
    next => exact hlt

theorem Orderly.congr {w' : World} (hw : w.Orderly)
    (hh : ∀ i : Fin roomCount, (w'.room i).happenings = (w.room i).happenings)
    (hn : w'.nextSequence = w.nextSequence) (hl : w'.labels = w.labels)
    (hm : ∀ {i : Fin roomCount} {thread m}, (w'.room i).marks.get? thread = some m →
      (w.room i).HasPlace thread) : w'.Orderly where
  rising i := by rw [hh]; exact hw.rising i
  numbered {i h} hm := by
    rw [hh] at hm
    rw [hn]
    exact hw.numbered hm
  apart {i j h h'} hm hm' := by
    rw [hh] at hm hm'
    exact hw.apart hm hm'
  rooted {i h place} hm ht := by
    rw [hh] at hm ⊢
    exact hw.rooted hm ht
  main {i h} hm := by
    rw [hh] at hm
    exact hw.main hm
  threaded {i h} hm := by
    rw [hh] at hm
    exact hw.threaded hm
  labelled {i h} hm := by
    rw [hh] at hm
    exact hw.labelled hm
  given {i h body} hm := by
    rw [hh] at hm
    rw [hl]
    exact hw.given hm
  distinct {i h h' body} hm hm' := by
    rw [hh] at hm hm'
    exact hw.distinct hm hm'
  placed {i thread m} h place ht := by
    rw [hh]
    exact hm h place ht

/-! ## Scopes -/

theorem rootId_of_getElem? {r : Room} {place : Nat} {root : Happening}
    (h : r.happenings[place]? = some root) : r.rootId place = root.id := by
  simp only [Room.rootId, h, Option.map_some, Option.getD_some]

theorem HasPlace.none (r : Room) : r.HasPlace none := fun _ h => by cases h

theorem hasPlace_of_getElem? {r : Room} {place : Nat} {root : Happening}
    (h : r.happenings[place]? = some root) : r.HasPlace (some place) := by
  intro place' he
  cases he
  exact (List.getElem?_eq_some_iff.1 h).1

theorem Orderly.hasPlace (hw : w.Orderly) {h : Happening} (hm : h ∈ (w.room i).happenings) :
    (w.room i).HasPlace h.thread := by
  intro place ht
  obtain ⟨root, hr, -⟩ := hw.rooted hm ht
  exact (List.getElem?_eq_some_iff.1 hr).1

theorem scope_congr {w' : World}
    (hh : (w'.room i).happenings = (w.room i).happenings) (thread : Option Nat) :
    w'.scope i thread = w.scope i thread := by
  unfold scope
  congr 2
  funext place
  unfold Room.rootId
  rw [hh]

theorem scope_add {h : Happening} {thread : Option Nat} (hp : (w.room j).HasPlace thread) :
    (w.add i h).scope j thread = w.scope j thread := by
  unfold scope
  congr 1
  refine Option.map_congr fun place ht => ?_
  have hlt := hp place ht
  have hget : (w.room j).happenings[place]? = some (w.room j).happenings[place] :=
    List.getElem?_eq_getElem hlt
  rw [rootId_of_getElem? hget, rootId_of_getElem? (getElem?_add hget)]

/-- What happened first has the least sequence, so places can be told by their events. -/
theorem Orderly.place_lt_iff (hw : w.Orderly) {place place' : Nat} {h h' : Happening}
    (hp : (w.room i).happenings[place]? = some h)
    (hp' : (w.room i).happenings[place']? = some h') :
    h.sequence < h'.sequence ↔ place < place' := by
  obtain ⟨hlt, rfl⟩ := List.getElem?_eq_some_iff.1 hp
  obtain ⟨hlt', rfl⟩ := List.getElem?_eq_some_iff.1 hp'
  have hr := List.pairwise_iff_getElem.1 (hw.rising i)
  constructor
  · intro hs
    rcases Nat.lt_trichotomy place place' with h | h | h
    · exact h
    · subst h
      exact absurd hs (Nat.lt_irrefl _)
    · exact absurd (hr place' place hlt' hlt h) (Nat.not_lt.2 (Nat.le_of_lt hs))
  · exact hr place place' hlt hlt'

theorem Orderly.place_inj (hw : w.Orderly) {place place' : Nat} {h h' : Happening}
    (hp : (w.room i).happenings[place]? = some h)
    (hp' : (w.room i).happenings[place']? = some h') (he : h.sequence = h'.sequence) :
    place = place' := by
  have h₁ := hw.place_lt_iff hp hp'
  have h₂ := hw.place_lt_iff hp' hp
  omega

theorem Orderly.scope_inj (hw : w.Orderly) {thread thread' : Option Nat}
    (hp : (w.room i).HasPlace thread) (hp' : (w.room j).HasPlace thread')
    (he : w.scope i thread = w.scope j thread') : i = j ∧ thread = thread' := by
  have hi : i = j := roomId_injective (congrArg Scope.room he)
  subst hi
  refine ⟨rfl, ?_⟩
  have ht : thread.map (w.room i).rootId = thread'.map (w.room i).rootId :=
    congrArg Scope.thread he
  cases thread with
  | none =>
    cases thread' with
    | none => rfl
    | some place' => cases ht
  | some place =>
    cases thread' with
    | none => cases ht
    | some place' =>
      have hget := List.getElem?_eq_getElem (hp place rfl)
      have hget' := List.getElem?_eq_getElem (hp' place' rfl)
      simp only [Option.map_some, rootId_of_getElem? hget, rootId_of_getElem? hget',
        Option.some.injEq] at ht
      rw [hw.place_inj hget hget' (eventNumbered_injective ht)]

theorem Orderly.beq_scope (hw : w.Orderly) {thread thread' : Option Nat}
    (hp : (w.room i).HasPlace thread) (hp' : (w.room i).HasPlace thread') :
    (w.scope i thread == w.scope i thread') = (thread == thread') := by
  rw [Bool.eq_iff_iff, beq_iff_eq, beq_iff_eq]
  constructor
  · exact fun he => (hw.scope_inj hp hp' he).2
  · rintro rfl
    rfl

/-- Different happenings have different events, through all rooms. -/
theorem Orderly.id_inj (hw : w.Orderly) {h h' : Happening} (hm : h ∈ (w.room i).happenings)
    (hm' : h' ∈ (w.room j).happenings) (he : h.id = h'.id) : i = j ∧ h = h' := by
  have hs := eventNumbered_injective he
  have hi := hw.apart hm hm' hs
  subst hi
  refine ⟨rfl, ?_⟩
  obtain ⟨place, hp⟩ := List.getElem?_of_mem hm
  obtain ⟨place', hp'⟩ := List.getElem?_of_mem hm'
  have := hw.place_inj hp hp' hs
  subst this
  exact Option.some.inj (hp.symm.trans hp')

/-! ## Something happens -/

def post (w : World) (i : Fin roomCount) (h : Happening) (own : Bool) : World :=
  let watched := w.watches i h.thread
  (w.add i h).change i fun r =>
    let r := if watched then r.advance h.thread h.sequence else r
    if own then r.advance none h.sequence else r

theorem happen_eq_post (w : World) (i : Fin roomCount) (body : Option String)
    (thread : Option Nat) (role : Role) :
    w.happen i body thread role = w.post i ⟨body, w.nextSequence, thread, role⟩ false := by
  simp only [happen, post, add, change, Bool.false_eq_true, if_false]
  congr 1
  simp

theorem change_happen_eq_post (w : World) (i : Fin roomCount) (body : Option String)
    (role : Role) :
    (w.happen i body none role).change i (·.advance none w.nextSequence) =
      w.post i ⟨body, w.nextSequence, none, role⟩ true := by
  simp only [happen, post, add, change, if_true]
  congr 1
  simp

theorem happenings_post (w : World) (i j : Fin roomCount) (h : Happening) (own : Bool) :
    ((w.post i h own).room j).happenings = ((w.add i h).room j).happenings := by
  rw [post, room_change]
  split
  next e =>
    subst e
    cases own <;> cases w.watches j h.thread <;> rfl
  next => rfl

theorem reads_post {h : Happening} {own : Bool} {thread : Option Nat} {q : Nat} :
    ((w.post i h own).room j).Reads thread q ↔ (w.room j).Reads thread q ∨
      j = i ∧ ((w.watches i h.thread = true ∧ thread = h.thread ∧ q ≤ h.sequence) ∨
        (own = true ∧ thread = none ∧ q ≤ h.sequence)) := by
  have hadd : ∀ thread q, ((w.add i h).room j).Reads thread q ↔ (w.room j).Reads thread q := by
    intro thread q
    unfold Room.Reads
    rw [marks_add]
  rw [post, room_change]
  split
  next e =>
    subst e
    cases own <;> cases w.watches j h.thread <;>
      simp only [Bool.false_eq_true, if_false, if_true, Room.reads_advance, hadd, true_and,
        false_and, or_false, false_or, or_assoc]
  next e => simp only [hadd, e, false_and, or_false]

theorem Orderly.change (hw : w.Orderly) {f : Room → Room}
    (hh : (f (w.room i)).happenings = (w.room i).happenings)
    (hm : ∀ {thread m}, (f (w.room i)).marks.get? thread = some m →
      (w.room i).HasPlace thread) : (w.change i f).Orderly := by
  refine hw.congr (fun j => ?_) rfl rfl fun {j thread m} h => ?_
  · rw [room_change]
    split
    next e => rw [e, hh]
    next => rfl
  · rw [room_change] at h
    split at h
    next e =>
      subst e
      exact hm h
    next => exact hw.placed h

theorem Orderly.look (hw : w.Orderly) (gaze : Option Gaze) : ({ w with gaze } : World).Orderly :=
  hw.congr (fun _ => rfl) rfl rfl hw.placed

/-! ## Texts -/

theorem Orderly.newLabel (hw : w.Orderly) (stem : String) : (w.newLabel stem).1.Orderly where
  rising := hw.rising
  numbered := hw.numbered
  apart := hw.apart
  rooted := hw.rooted
  main := hw.main
  threaded := hw.threaded
  labelled := hw.labelled
  given hm hb := by
    obtain ⟨stem', n, hs, hn, he⟩ := hw.given hm hb
    exact ⟨stem', n, hs, Nat.le_succ_of_le hn, he⟩
  distinct := hw.distinct
  placed := hw.placed

theorem Orderly.label_fresh (hw : w.Orderly) {stem : String} (hs : stem.length = 1)
    {body : String} (hb : some (w.newLabel stem).2 = some body) :
    (∃ stem' n, stem'.length = 1 ∧ n ≤ (w.newLabel stem).1.labels ∧
      body = stem' ++ toString n) ∧
      ∀ h' ∈ ((w.newLabel stem).1.room i).happenings, h'.body ≠ some body := by
  cases hb
  refine ⟨⟨stem, w.labels + 1, hs, Nat.le_refl _, rfl⟩, fun h' hm hb => ?_⟩
  obtain ⟨stem', n, hs', hn, he⟩ := hw.given hm hb
  have := number_of_label_eq hs hs' he
  omega

/-! ## The beginning -/

def nowhere : World where
  rooms := Vector.ofFn fun _ => ⟨[], .empty⟩
  gaze := none
  nextSequence := 1
  labels := 0

def join (w : World) (i : Fin roomCount) : World :=
  w.post i ⟨none, w.nextSequence, none, .join⟩ true

theorem start_eq_join : start = (List.finRange roomCount).foldl join nowhere := by decide

theorem orderly_nowhere : nowhere.Orderly := by
  have hh : ∀ i : Fin roomCount, (nowhere.room i).happenings = [] := by decide
  have hm : ∀ i : Fin roomCount, (nowhere.room i).marks = .empty := by decide
  constructor
  all_goals intros
  all_goals simp_all

theorem fresh_join (w : World) (i : Fin roomCount) :
    w.Fresh i ⟨none, w.nextSequence, none, .join⟩ where
  sequence := rfl
  rooted h := by cases h
  main _ := rfl
  threaded h := by cases h
  labelled h := by cases h
  given h := by cases h

end World

end ReadTracking.Reference
