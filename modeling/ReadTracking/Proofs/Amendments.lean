import Mathlib.Data.List.Basic
import ReadTracking.Proofs.Intake

/-!
# Amendments of the chronicle

Messages come one by one or in batches, gaps are filled and rooms are forgotten, in any order and
whatever the messages say.  Through all of that each message stands at one place of one strand, no
two of them arrived at once, and what is indexed stays as it is until its room is forgotten.
Forgetting takes out the messages of one room, says how many there were, and leaves the other
rooms alone.
-/

set_option autoImplicit false

namespace ReadTracking

open KeyOrder

inductive Amendment where
  | append (m : Message)
  | ingest (room : RoomId) (batch : List Message) (limited : Bool)
  | closeGap (room : RoomId) (sequence : Nat)
  | forget (room : RoomId)
  deriving DecidableEq, Inhabited

def Amendment.messages : Amendment → List Message
  | .append m => [m]
  | .ingest _ batch _ => batch
  | .closeGap _ _ | .forget _ => []

def Indexed.Precedes (e e' : Indexed) : Prop :=
  e.position.sequence < e'.position.sequence ∨
    e.position.sequence = e'.position.sequence ∧ e.position.arrival < e'.position.arrival

namespace Chronicle

def amend (c : Chronicle) : Amendment → Chronicle
  | .append m => (c.append m).1
  | .ingest room batch limited => (c.ingest room batch limited).1
  | .closeGap room sequence => (c.closeGap room sequence).1
  | .forget room => (c.forget room).1

def amendAll : Chronicle → List Amendment → Chronicle
  | c, [] => c
  | c, a :: as => (c.amend a).amendAll as

theorem amendAll_keeps {P : Chronicle → Prop} {c : Chronicle} {as : List Amendment} (h : P c)
    (step : ∀ a ∈ as, ∀ c, P c → P (c.amend a)) : P (c.amendAll as) := by
  induction as generalizing c with
  | nil => exact h
  | cons a as ih =>
    have ha : P (c.amend a) := step a List.mem_cons_self c h
    exact ih ha fun a' ha' => step a' (List.mem_cons_of_mem _ ha')

variable {c c' : Chronicle}

theorem Sound.amend (hc : c.Sound) (a : Amendment) : (c.amend a).Sound := by
  cases a with
  | append m => exact hc.append m
  | ingest room batch limited => exact hc.ingest room batch limited
  | closeGap room sequence => exact hc.closeGap room sequence
  | forget room => exact hc.forget room

/-! ## Arrivals -/

def Apart (c : Chronicle) : Prop :=
  ∀ id id' e e', c.get? id = some e → c.get? id' = some e' →
    e.position.arrival = e'.position.arrival → id = id'

theorem apart_empty (judge : Judge) : (empty judge).Apart := by
  intro id id' e e' he
  cases he

theorem Apart.mono (h : c.Apart) (hsub : ∀ {id e}, c'.get? id = some e → c.get? id = some e) :
    c'.Apart :=
  fun id id' e e' he he' => h id id' e e' (hsub he) (hsub he')

theorem Apart.append (h : c.Apart) (hc : c.Sound) (m : Message) : (c.append m).1.Apart := by
  cases hm : c.get? m.id with
  | some e =>
    rw [append_of_contains c (Table.contains_iff.2 ⟨e, hm⟩)]
    exact h
  | none =>
    have hcases : ∀ {id e}, (c.append m).1.get? id = some e →
        id = m.id ∧ e.position.arrival = c.nextArrival ∨ c.get? id = some e :=
      forall_append hm (P := fun id e =>
        id = m.id ∧ e.position.arrival = c.nextArrival ∨ c.get? id = some e)
        (.inl ⟨rfl, rfl⟩) fun _ _ => .inr
    intro id id' e e' he he' hsame
    rcases hcases he with ⟨rfl, hnew⟩ | hold <;> rcases hcases he' with ⟨rfl, hnew'⟩ | hold'
    · rfl
    -- Whatever was indexed before arrived before the new message.
    · have := hc.arrived hold'
      omega
    · have := hc.arrived hold
      omega
    · exact h id id' e e' hold hold' hsame

theorem Apart.amend (h : c.Apart) (hc : c.Sound) (a : Amendment) : (c.amend a).Apart := by
  cases a with
  | append m => exact h.append hc m
  | ingest room batch limited =>
    have hall : (c.appendAll room batch).1.Sound ∧ (c.appendAll room batch).1.Apart :=
      appendAll_keeps (P := fun c => c.Sound ∧ c.Apart)
        (fun _ m _ _ hc => ⟨hc.1.append m, hc.2.append hc.1 m⟩) ⟨hc, h⟩
    exact hall.2.mono fun he => get?_ingest.symm.trans he
  | closeGap room sequence => exact h.mono fun he => (get?_closeGap room sequence _).symm.trans he
  | forget room =>
    refine h.mono fun {id e} he => ?_
    have he : (c.forget room).1.get? id = some e := he
    rw [hc.get?_forget, Option.filter_eq_some_iff] at he
    exact he.1

theorem nextArrival_append (m : Message) : (c.append m).1.nextArrival ≤ c.nextArrival + 1 := by
  unfold append
  split
  · exact Nat.le_succ _
  · exact Nat.le_refl _

theorem nextArrival_appendAll (room : RoomId) (ms : List Message) :
    (c.appendAll room ms).1.nextArrival ≤ c.nextArrival + ms.length := by
  induction ms generalizing c with
  | nil => exact Nat.le_refl _
  | cons m ms ih =>
    simp only [appendAll, List.length_cons]
    split
    · have hfirst := c.nextArrival_append m
      have hrest := ih (c := (c.append m).1)
      dsimp only
      omega
    · have hrest := ih (c := c)
      omega

theorem nextArrival_amend (a : Amendment) :
    (c.amend a).nextArrival ≤ c.nextArrival + a.messages.length := by
  cases a with
  | append m => exact c.nextArrival_append m
  | ingest room batch limited =>
    have hall := c.nextArrival_appendAll room batch
    show (c.ingest room batch limited).1.nextArrival ≤ _
    -- A gap that is opened behind the batch gives out no arrival.
    obtain ⟨-, h | ⟨roots, p, -, h⟩⟩ := c.ingest_cases room batch limited
    · rw [h]
      exact hall
    · rw [h]
      exact hall
  | closeGap room sequence =>
    show (c.closeGap room sequence).1.nextArrival ≤ _
    unfold closeGap
    cases c.rooms.get? room <;> exact Nat.le_refl _
  | forget room =>
    show (c.forget room).1.nextArrival ≤ _
    unfold forget
    split <;> exact Nat.le_refl _

theorem nextArrival_amendAll (as : List Amendment) :
    (c.amendAll as).nextArrival ≤ c.nextArrival + (as.flatMap (·.messages)).length := by
  induction as generalizing c with
  | nil => exact Nat.le_refl _
  | cons a as ih =>
    have hfirst := c.nextArrival_amend a
    have hrest := ih (c := c.amend a)
    rw [List.flatMap_cons, List.length_append]
    show ((c.amend a).amendAll as).nextArrival ≤ _
    omega

/-! ## What is indexed stays -/

theorem get?_amend_of_some (hc : c.Sound) {id : EventId} {e : Indexed} (he : c.get? id = some e)
    {a : Amendment} (ha : a ≠ .forget e.message.room) : (c.amend a).get? id = some e := by
  cases a with
  | append m => exact get?_append_of_some he
  | ingest room batch limited => exact get?_ingest.trans (get?_appendAll_of_some he)
  | closeGap room sequence => exact (get?_closeGap room sequence id).trans he
  | forget room =>
    show (c.forget room).1.get? id = some e
    rw [hc.get?_forget, he, Option.filter_eq_some_iff]
    exact ⟨rfl, bne_iff_ne.2 fun h => ha (congrArg Amendment.forget h.symm)⟩

theorem get?_amendAll_of_some (hc : c.Sound) {id : EventId} {e : Indexed}
    (he : c.get? id = some e) {as : List Amendment} (has : .forget e.message.room ∉ as) :
    (c.amendAll as).get? id = some e := by
  have hkept : (c.amendAll as).Sound ∧ (c.amendAll as).get? id = some e :=
    amendAll_keeps (P := fun c => c.Sound ∧ c.get? id = some e) ⟨hc, he⟩ fun a ha _ h =>
      ⟨h.1.amend a, get?_amend_of_some h.1 h.2 fun e => has (e ▸ ha)⟩
  exact hkept.2

/-! ## Forgetting a room -/

def ofRoom (c : Chronicle) (room : RoomId) : List Indexed :=
  c.events.values.filter (·.message.room = room)

theorem Sound.contains_rooms (hc : c.Sound) {id : EventId} {e : Indexed}
    (he : c.get? id = some e) : c.rooms.contains e.message.room = true := by
  refine Table.contains_iff.2 ?_
  cases hl : c.rooms.get? e.message.room with
  | some log => exact ⟨log, rfl⟩
  | none =>
    -- Without a log the message would stand nowhere.
    have hp := hc.stands he
    have hempty : c.log e.scope.room = .empty := by
      simp only [log, hc.housed he, hl]
      rfl
    rw [strand, hempty] at hp
    cases ht : e.scope.thread <;> rw [ht] at hp <;> cases hp

theorem Sound.snd_forget (hc : c.Sound) (room : RoomId) :
    (c.forget room).2 = (c.ofRoom room).length := by
  by_cases hr : c.rooms.contains room = true
  -- The count is that of all messages less those that stay.
  · have hsplit := List.length_eq_length_filter_add (l := c.events.values)
      fun e => decide (e.message.room = room)
    have hkept : (c.events.filter fun _ e => e.message.room != room).size =
        (c.events.values.filter fun e => !decide (e.message.room = room)).length := by
      simp only [Table.size, Table.filter, Table.values, List.filter_map, List.length_map]
      rfl
    have hsize : c.events.values.length = c.events.size := List.length_map _
    simp only [Chronicle.forget, if_pos hr, hkept, ofRoom]
    omega
  · have hnone : c.ofRoom room = [] := by
      refine List.filter_eq_nil_iff.2 fun e he h => ?_
      obtain ⟨⟨id, e⟩, hmem, rfl⟩ := List.mem_map.1 he
      have hget : c.get? id = some e := (Table.get?_eq_some_iff _).2 hmem
      exact hr (of_decide_eq_true h ▸ hc.contains_rooms hget)
    simp only [Chronicle.forget, if_neg hr, hnone, List.length_nil]

theorem rooms_forget {room room' : RoomId} (h : room' ≠ room) :
    (c.forget room).1.rooms.get? room' = c.rooms.get? room' := by
  unfold forget
  split
  · exact Table.get?_erase_of_ne _ h
  · rfl

/-! ## The two tables fit together -/

def Stands (c : Chronicle) (s : Scope) (p : Position) (id : EventId) : Prop :=
  ∃ strand, c.strand? s = some strand ∧ strand.entries.get? p = some id

theorem stands_iff {s : Scope} {p : Position} {id : EventId} :
    c.Stands s p id ↔ (c.strand s).entries.get? p = some id := by
  rw [← strand?_getD]
  unfold Stands
  cases c.strand? s with
  | none => simp [Strand.empty]
  | some strand => simp

/-- The index by name and the strands of the rooms fit together. -/
structure Coherent (c : Chronicle) : Prop where
  stands : ∀ s p id, c.Stands s p id ↔ ∃ e, c.get? id = some e ∧ e.scope = s ∧ e.position = p
  named : ∀ id e, c.get? id = some e → e.message.id = id
  housed : ∀ id e, c.get? id = some e → e.scope.room = e.message.room
  numbered : ∀ id e, c.get? id = some e → e.position.sequence = e.message.sequence
  judged : ∀ id e, c.get? id = some e → e.verdict = c.judge.verdict e.message
  arrived : ∀ id e, c.get? id = some e → e.position.arrival < c.nextArrival
  apart : c.Apart
  lists : ∀ s e, e ∈ c.eventsAfter s none ↔ c.get? e.message.id = some e ∧ e.scope = s
  ordered : ∀ s, (c.eventsAfter s none).Pairwise Indexed.Precedes
  threaded : ∀ room root, c.hasThread room root = true ↔
    ∃ id e, c.get? id = some e ∧ e.scope = .ofThread room root

theorem Sound.mem_eventsAfter_none (hc : c.Sound) {s : Scope} {e : Indexed} :
    e ∈ c.eventsAfter s none ↔ c.get? e.message.id = some e ∧ e.scope = s := by
  rw [eventsAfter_eq, List.mem_filterMap]
  constructor
  · rintro ⟨id, hid, he⟩
    obtain ⟨e', he', hs, -⟩ := hc.mem_after.1 hid
    cases he.symm.trans he'
    exact ⟨(hc.named he).symm ▸ he, hs⟩
  · rintro ⟨he, hs⟩
    exact ⟨e.message.id, hc.mem_after.2 ⟨e, he, hs, rfl⟩, he⟩

theorem Sound.ordered_eventsAfter (hc : c.Sound) (s : Scope) :
    (c.eventsAfter s none).Pairwise Indexed.Precedes := by
  rw [eventsAfter_eq, List.pairwise_filterMap]
  show ((c.strand s).entries.entries.map (·.2)).Pairwise _
  rw [List.pairwise_map]
  refine (c.strand s).entries.rising.imp_of_mem fun {p p'} hp hp' hbefore e he e' he' => ?_
  obtain ⟨e₁, hget, -, hpos⟩ := hc.indexed ((Table.get?_eq_some_iff _).2 hp)
  obtain ⟨e₂, hget', -, hpos'⟩ := hc.indexed ((Table.get?_eq_some_iff _).2 hp')
  cases hget.symm.trans he
  cases hget'.symm.trans he'
  rw [← hpos, ← hpos'] at hbefore
  exact (pairBefore_iff _ _).1 hbefore

theorem Sound.coherent (hc : c.Sound) (ha : c.Apart) : c.Coherent where
  stands s p id := by
    rw [stands_iff]
    constructor
    · exact hc.indexed
    · rintro ⟨e, he, rfl, rfl⟩
      exact hc.stands he
  named _ _ := hc.named
  housed _ _ := hc.housed
  numbered _ _ := hc.numbered
  judged _ _ := hc.judged
  arrived _ _ := hc.arrived
  apart := ha
  lists _ _ := hc.mem_eventsAfter_none
  ordered := hc.ordered_eventsAfter
  threaded _ _ := hc.hasThread_iff

/-- Whatever is done to a chronicle that held nothing at first: each message stands at one place
of one strand, in the order of sequence and arrival; no more arrivals are given out than messages
came; what is indexed stays until its room is forgotten; and forgetting a room takes out its
messages, says how many there were, and leaves every other room as it was. -/
theorem coherent_through_amendments (judge : Judge) (as : List Amendment) :
    let c := (empty judge).amendAll as
    c.Coherent ∧ c.nextArrival ≤ (as.flatMap (·.messages)).length ∧
      (∀ id e, c.get? id = some e → ∀ later, .forget e.message.room ∉ later →
        (c.amendAll later).get? id = some e) ∧
      ∀ room, (c.forget room).2 = (c.ofRoom room).length ∧
        (∀ id e, (c.forget room).1.get? id = some e ↔
          c.get? id = some e ∧ e.message.room ≠ room) ∧
        ∀ room', room' ≠ room → (c.forget room).1.rooms.get? room' = c.rooms.get? room' := by
  intro c
  obtain ⟨hc, ha⟩ : c.Sound ∧ c.Apart :=
    amendAll_keeps (P := fun c => c.Sound ∧ c.Apart) ⟨sound_empty judge, apart_empty judge⟩
      fun a _ _ h => ⟨h.1.amend a, h.2.amend h.1 a⟩
  have hcount : c.nextArrival ≤ 0 + (as.flatMap (·.messages)).length :=
    nextArrival_amendAll (c := empty judge) as
  rw [Nat.zero_add] at hcount
  refine ⟨hc.coherent ha, hcount,
    fun id e he later hl => get?_amendAll_of_some hc he hl, fun room => ⟨hc.snd_forget room, ?_,
      fun room' hne => rooms_forget hne⟩⟩
  intro id e
  rw [hc.get?_forget, Option.filter_eq_some_iff, bne_iff_ne]

/-- Two rooms with equal sequences, a thread before its root, a reaction across rooms, a name that
comes again, and a gap: the other room stays while the room is forgotten. -/
theorem coherent_through_amendments_of_two_rooms :
    let room : RoomId := ⟨"!r"⟩
    let other : RoomId := ⟨"!s"⟩
    let said (id : String) (room : RoomId) (q : Nat) (content : Content) : Message :=
      ⟨⟨id⟩, room, ⟨"@bot"⟩, q, content, false⟩
    let c := (empty (.of ⟨"@me"⟩ {})).amendAll
      [.ingest room [said "$3" room 5 (.threadReply ⟨"$1"⟩), said "$2" room 5 .plain] true,
        .append (said "$x" other 5 (.reaction ⟨"$3"⟩ "+")), .append (said "$2" other 9 .plain),
        .ingest room [said "$1" room 1 .plain, said "$4" room 7 (.edit ⟨"$3"⟩)] false,
        .closeGap room 5]
    c.Coherent ∧
      ((c.amendAll [.forget room, .append (said "$x" room 8 .plain)]).get? ⟨"$x"⟩).isSome ∧
      ((c.forget room).2, (c.forget room).1.size) = (4, 1) := by
  intro room other said c
  obtain ⟨hcoherent, -, hstays, hforget⟩ := coherent_through_amendments (.of ⟨"@me"⟩ {})
    [.ingest room [said "$3" room 5 (.threadReply ⟨"$1"⟩), said "$2" room 5 .plain] true,
      .append (said "$x" other 5 (.reaction ⟨"$3"⟩ "+")), .append (said "$2" other 9 .plain),
      .ingest room [said "$1" room 1 .plain, said "$4" room 7 (.edit ⟨"$3"⟩)] false,
      .closeGap room 5]
  have hx : (c.get? ⟨"$x"⟩).map (·.message.room) = some other := by decide +kernel
  obtain ⟨e, he, hroom⟩ := Option.map_eq_some_iff.1 hx
  refine ⟨hcoherent, ?_, ?_⟩
  · rw [hstays ⟨"$x"⟩ e he]
    · rfl
    · rw [hroom]
      decide
  · have hsize : (c.forget room).1.size = 1 := by decide +kernel
    have hcount : (c.ofRoom room).length = 4 := by decide +kernel
    rw [(hforget room).1, hsize, hcount]

end Chronicle

end ReadTracking
