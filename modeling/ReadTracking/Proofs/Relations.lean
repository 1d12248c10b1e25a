import ReadTracking.Proofs.Amendments
import ReadTracking.Proofs.Deliveries
import ReadTracking.Proofs.Timelines

/-!
# Relations lead to one scope

An edit or a reaction is shown where its target is.  The server finds that place afterwards, by
following the targets through the timeline; the chronicle settles it when the message comes in.
Since a target always stands before what relates to it, following takes fewer steps than there are
events, ends at an event of the timeline, and comes to the scope that the chronicle has settled.
-/

set_option autoImplicit false

namespace ReadTracking

/-! ## Following targets -/

def Content.follows? : Content → Option EventId
  | .edit target | .reaction target _ => some target
  | .plain | .reply _ | .threadReply _ | .state _ | .other => none

theorem Content.placesItself_of_follows? {c : Content} (h : c.follows? = none) :
    c.placesItself = true := by
  cases c <;> first | rfl | cases h

inductive WalkEnd where
  | reached (m : Message)
  | missing (id : EventId)
  | spent
  deriving DecidableEq, Inhabited

namespace Server

def walk (timeline : List Message) : (steps : Nat) → EventId → WalkEnd
  | 0, _ => .spent
  | steps + 1, id =>
    match timeline.find? (·.id == id) with
    | none => .missing id
    | some m =>
      match m.content.follows? with
      | some target => walk timeline steps target
      | none => .reached m

end Server

def WalkEnd.scope (room : RoomId) : WalkEnd → Scope
  | .reached m => m.ownScope
  | .missing _ | .spent => .ofRoom room

namespace Server

variable {room : RoomId} {timeline : List Message} {s : Server} {m : Message}

theorem chase_eq_scope (hroom : ∀ m ∈ timeline, m.room = room) (steps : Nat) (id : EventId) :
    chase timeline room steps id = (walk timeline steps id).scope room := by
  induction steps generalizing id with
  | zero => rfl
  | succ steps ih =>
    cases hf : timeline.find? (·.id == id) with
    | none => simp only [chase, walk, hf, WalkEnd.scope]
    | some m =>
      have hr : m.room = room := hroom m (List.mem_of_find?_eq_some hf)
      cases hc : m.content <;>
        simp only [chase, walk, hf, hc, Content.follows?, ih, WalkEnd.scope, Message.ownScope, hr]

theorem walk_of_own {id : EventId} (hm : timeline.find? (·.id == id) = some m)
    (hf : m.content.follows? = none) (steps : Nat) :
    walk timeline (steps + 1) id = .reached m := by
  simp only [walk, hm, hf]

theorem walk_of_follows {id target : EventId} (hm : timeline.find? (·.id == id) = some m)
    (hf : m.content.follows? = some target) (steps : Nat) :
    walk timeline (steps + 1) id = walk timeline steps target := by
  simp only [walk, hm, hf]

/-! ## Targets come first -/

theorem Sound.find?_id (hs : s.Sound) (hm : m ∈ s.timeline room) :
    (s.timeline room).find? (·.id == m.id) = some m := by
  cases hf : (s.timeline room).find? (·.id == m.id) with
  | none =>
    have hnot := List.find?_eq_none.1 hf m hm
    simp at hnot
  | some m' =>
    have hid := List.find?_some hf
    rw [hs.eq_of_id (List.mem_of_find?_eq_some hf) hm (beq_iff_eq.1 hid)]

theorem relatesTo_of_follows? {c : Content} {target : EventId} (h : c.follows? = some target) :
    c.relatesTo = some target := by
  cases c <;> first | exact h | cases h

theorem Sound.exists_target (hs : s.Sound) {i : Nat} (hm : (s.timeline room)[i]? = some m)
    {target : EventId} (hf : m.content.follows? = some target) :
    ∃ j m', j < i ∧ (s.timeline room)[j]? = some m' ∧ m'.id = target := by
  obtain ⟨m', hm', hid, hlt⟩ := hs.related (List.mem_of_getElem? hm) (relatesTo_of_follows? hf)
  obtain ⟨j, hj⟩ := List.getElem?_of_mem hm'
  refine ⟨j, m', ?_, hj, hid⟩
  by_contra hij
  obtain ⟨hi, rfl⟩ := List.getElem?_eq_some_iff.1 hm
  obtain ⟨hjlt, rfl⟩ := List.getElem?_eq_some_iff.1 hj
  rcases Nat.eq_or_lt_of_le (Nat.not_lt.1 hij) with rfl | hij
  · exact Nat.lt_irrefl _ hlt
  · exact Nat.lt_asymm hlt (List.pairwise_iff_getElem.1 (hs.rising room) i j hi hjlt hij)

/-- Following ends at an event that follows no other.  It takes at most as many steps as the event
has others before it. -/
theorem Sound.walk_reaches (hs : s.Sound) {i : Nat} (hm : (s.timeline room)[i]? = some m) :
    ∃ last ∈ s.timeline room, last.content.follows? = none ∧
      ∀ steps, i ≤ steps → walk (s.timeline room) (steps + 1) m.id = .reached last := by
  induction i using Nat.strongRecOn generalizing m with
  | ind i ih =>
    have hmem : m ∈ s.timeline room := List.mem_of_getElem? hm
    have hfind := hs.find?_id hmem
    cases hf : m.content.follows? with
    | none => exact ⟨m, hmem, hf, fun steps _ => walk_of_own hfind hf steps⟩
    | some target =>
      obtain ⟨j, m', hji, hj, rfl⟩ := hs.exists_target hm hf
      obtain ⟨last, hlast, hnone, hwalk⟩ := ih j hji hj
      refine ⟨last, hlast, hnone, fun steps hi => ?_⟩
      obtain ⟨steps, rfl⟩ := Nat.exists_eq_add_of_lt (Nat.lt_of_lt_of_le hji hi)
      rw [walk_of_follows hfind hf]
      exact hwalk (j + steps) (Nat.le_add_right j steps)

/-- The steps that the server allows are enough. -/
theorem Sound.walk_length (hs : s.Sound) (hm : m ∈ s.timeline room) :
    ∃ last ∈ s.timeline room, last.content.follows? = none ∧
      walk (s.timeline room) (s.timeline room).length m.id = .reached last ∧
      s.scopeOf room m.id = last.ownScope := by
  obtain ⟨i, hi⟩ := List.getElem?_of_mem hm
  obtain ⟨last, hlast, hnone, hwalk⟩ := hs.walk_reaches hi
  have hlt : i < (s.timeline room).length := (List.getElem?_eq_some_iff.1 hi).1
  obtain ⟨steps, hsteps⟩ := Nat.exists_eq_add_of_lt hlt
  have hend : walk (s.timeline room) (s.timeline room).length m.id = .reached last := by
    rw [hsteps]
    exact hwalk (i + steps) (Nat.le_add_right i steps)
  refine ⟨last, hlast, hnone, hend, ?_⟩
  rw [scopeOf, chase_eq_scope (fun _ => hs.housed), hend]
  rfl

theorem Sound.scopeOf_own (hs : s.Sound) (hm : m ∈ s.timeline room)
    (hf : m.content.follows? = none) : s.scopeOf room m.id = m.ownScope := by
  obtain ⟨last, hlast, -, hend, hscope⟩ := hs.walk_length hm
  obtain ⟨steps, hsteps⟩ := Nat.exists_eq_succ_of_ne_zero (Nat.ne_of_gt (List.length_pos_of_mem hm))
  rw [hsteps, walk_of_own (hs.find?_id hm) hf] at hend
  rw [hscope, WalkEnd.reached.inj hend]

theorem Sound.scopeOf_follows (hs : s.Sound) (hm : m ∈ s.timeline room) {target : EventId}
    (hf : m.content.follows? = some target) :
    s.scopeOf room m.id = s.scopeOf room target := by
  obtain ⟨i, hi⟩ := List.getElem?_of_mem hm
  obtain ⟨j, m', hji, hj, rfl⟩ := hs.exists_target hi hf
  have hlt : i < (s.timeline room).length := (List.getElem?_eq_some_iff.1 hi).1
  obtain ⟨last, -, -, hwalk⟩ := hs.walk_reaches hj
  obtain ⟨steps, hsteps⟩ := Nat.exists_eq_add_of_lt (Nat.lt_of_le_of_lt (Nat.succ_le_of_lt hji) hlt)
  simp only [scopeOf, chase_eq_scope fun _ => hs.housed]
  have hshort := hwalk (j + steps) (Nat.le_add_right j steps)
  have hlong := hwalk (j + 1 + steps) (by omega)
  have hlength : (s.timeline room).length = j + 1 + steps + 1 := by omega
  rw [hlength, hlong, walk_of_follows (hs.find?_id hm) hf, Nat.add_right_comm, hshort]

end Server

/-! ## The chronicle settles the same -/

namespace Chronicle

theorem scopeFor_follows {c : Chronicle} {m : Message} {target : EventId} {e : Indexed}
    (hf : m.content.follows? = some target) (he : c.get? target = some e)
    (hroom : e.message.room = m.room) : c.scopeFor m = e.scope := by
  cases hc : m.content <;> rw [hc] at hf <;> cases hf <;>
    simp only [scopeFor, hc, he, hroom, if_true]

end Chronicle

namespace Server

structure MirroredBy (s : Server) (room : RoomId) (shown : List Message) (c : Chronicle) :
    Prop where
  indexed : ∀ {m}, m ∈ shown → ∃ e, c.get? m.id = some e ∧ e.message = m ∧
    e.scope = s.scopeOf room m.id
  only : ∀ {id e}, c.get? id = some e → e.message ∈ shown ∧ e.message.id = id

variable {s : Server} {room : RoomId} {shown rest : List Message} {c : Chronicle} {m : Message}

theorem Sound.mem_of_lt (hs : s.Sound) (htimeline : s.timeline room = shown ++ m :: rest)
    {m' : Message} (hm' : m' ∈ s.timeline room) (hlt : m'.sequence < m.sequence) :
    m' ∈ shown := by
  have hrising := hs.rising room
  rw [htimeline] at hm' hrising
  obtain ⟨-, hlater, -⟩ := List.pairwise_append.1 hrising
  rcases List.mem_append.1 hm' with hm' | hm'
  · exact hm'
  rcases List.mem_cons.1 hm' with rfl | hm'
  · exact absurd hlt (Nat.lt_irrefl _)
  · exact absurd hlt (Nat.lt_asymm ((List.pairwise_cons.1 hlater).1 m' hm'))

/-- When an event comes in, its target is indexed already. -/
theorem MirroredBy.scopeFor (hc : s.MirroredBy room shown c) (hs : s.Sound)
    (htimeline : s.timeline room = shown ++ m :: rest) :
    c.scopeFor m = s.scopeOf room m.id := by
  have hm : m ∈ s.timeline room := htimeline ▸ List.mem_append_right _ List.mem_cons_self
  cases hf : m.content.follows? with
  | none =>
    rw [c.scopeFor_of_placesItself (Content.placesItself_of_follows? hf), hs.scopeOf_own hm hf]
  | some target =>
    obtain ⟨m', hm', rfl, hlt⟩ := hs.related hm (relatesTo_of_follows? hf)
    obtain ⟨e, he, rfl, hscope⟩ := hc.indexed (hs.mem_of_lt htimeline hm' hlt)
    have hroom : e.message.room = m.room := (hs.housed hm').trans (hs.housed hm).symm
    rw [Chronicle.scopeFor_follows hf he hroom, hscope, hs.scopeOf_follows hm hf]

theorem MirroredBy.append (hc : s.MirroredBy room shown c) (hs : s.Sound)
    (htimeline : s.timeline room = shown ++ m :: rest) :
    s.MirroredBy room (shown ++ [m]) (c.append m).1 := by
  have hm : m ∈ s.timeline room := htimeline ▸ List.mem_append_right _ List.mem_cons_self
  have hold : ∀ {m'}, m' ∈ shown → m' ∈ s.timeline room ∧ m'.sequence < m.sequence := by
    intro m' hm'
    have hrising := hs.rising room
    rw [htimeline] at hrising
    exact ⟨htimeline ▸ List.mem_append_left _ hm',
      (List.pairwise_append.1 hrising).2.2 m' hm' m List.mem_cons_self⟩
  have hfresh : c.get? m.id = none := by
    refine Option.eq_none_iff_forall_ne_some.2 fun e he => ?_
    obtain ⟨hshown, hid⟩ := hc.only he
    obtain ⟨htl, hlt⟩ := hold hshown
    rw [hs.eq_of_id htl hm hid] at hlt
    exact Nat.lt_irrefl _ hlt
  constructor
  · intro m' hm'
    rcases List.mem_append.1 hm' with hm' | hm'
    · obtain ⟨e, he, hmessage, hscope⟩ := hc.indexed hm'
      exact ⟨e, Chronicle.get?_append_of_some he, hmessage, hscope⟩
    · rw [List.mem_singleton.1 hm']
      exact ⟨_, Chronicle.get?_append_self hfresh, rfl, hc.scopeFor hs htimeline⟩
  · intro id e he
    exact Chronicle.forall_append hfresh
      (P := fun id e => e.message ∈ shown ++ [m] ∧ e.message.id = id)
      ⟨List.mem_append_right _ List.mem_cons_self, rfl⟩
      (fun id e he => (hc.only he).imp_left (List.mem_append_left _)) he

theorem MirroredBy.appendAll (hc : s.MirroredBy room shown c) (hs : s.Sound)
    (htimeline : s.timeline room = shown ++ rest) :
    s.MirroredBy room (s.timeline room) (c.amendAll (rest.map .append)) := by
  induction rest generalizing shown c with
  | nil => simpa [Chronicle.amendAll, htimeline] using hc
  | cons m rest ih => exact ih (hc.append hs htimeline) (by simp [htimeline])

/-! ## Any calls -/

end Server

inductive ServerCall where
  | createRoom (name : String)
  | send (room : RoomId) (sender : UserId) (drafts : List Draft)
  deriving DecidableEq, Inhabited

namespace Server

def call (s : Server) : ServerCall → Server
  | .createRoom name => (s.createRoom name).1
  | .send room sender drafts => (s.send room sender drafts).1

def callAll (calls : List ServerCall) : Server := calls.foldl call {}

theorem Sound.call {s : Server} (hs : s.Sound) (c : ServerCall) : (s.call c).Sound := by
  cases c with
  | createRoom name => exact hs.createRoom name
  | send room sender drafts => exact hs.send room sender drafts

theorem sound_callAll (calls : List ServerCall) : (callAll calls).Sound := by
  have hkept : ∀ {s : Server}, s.Sound → (calls.foldl Server.call s).Sound := by
    induction calls with
    | nil => exact id
    | cons c calls ih => exact fun hs => ih (hs.call c)
  exact hkept sound_start

/-- After any calls, a chronicle that is given the timeline of a room indexes each of its events,
and nothing else, in the scope that the server finds for it; and the server finds it by coming to
an event of the timeline that is neither an edit nor a reaction. -/
theorem scopes_agree_after_calls (calls : List ServerCall) (room : RoomId) (judge : Judge) :
    let s := callAll calls
    let c := (Chronicle.empty judge).amendAll ((s.timeline room).map .append)
    (∀ m ∈ s.timeline room, (∃ e, c.get? m.id = some e ∧ e.message = m) ∧
      c.scope? m.id = some (s.scopeOf room m.id)) ∧
    (∀ id e, c.get? id = some e → e.message ∈ s.timeline room ∧ e.message.id = id) ∧
    ∀ m ∈ s.timeline room, ∃ last ∈ s.timeline room, last.content.follows? = none ∧
      walk (s.timeline room) (s.timeline room).length m.id = .reached last ∧
      s.scopeOf room m.id = last.ownScope := by
  intro s c
  have hs : s.Sound := sound_callAll calls
  have hempty : s.MirroredBy room [] (.empty judge) := ⟨fun h => (nomatch h), fun h => (nomatch h)⟩
  have hall : s.MirroredBy room (s.timeline room) c := hempty.appendAll hs rfl
  refine ⟨fun m hm => ?_, fun id e he => hall.only he, fun m hm => hs.walk_length hm⟩
  obtain ⟨e, he, hmessage, hscope⟩ := hall.indexed hm
  exact ⟨⟨e, he, hmessage⟩, by rw [Chronicle.scope?, he, Option.map_some, hscope]⟩

/-- A reaction to an edit of a reply in a thread, sent under a text that was used before and by a
call that stops halfway. -/
theorem scopes_agree_after_calls_for_reaction :
    let room := roomNamed "r"
    let calls : List ServerCall := [.createRoom "r", .createRoom "s",
      .send room ⟨"@a"⟩ [.plain "x", .threadReply "x" "y", .edit "y" "x"],
      .send (roomNamed "s") ⟨"@a"⟩ [.plain "x"],
      .send room ⟨"@b"⟩ [.reaction "x" "+", .reaction "nothing" "+", .plain "z"]]
    let s := callAll calls
    let c := (Chronicle.empty ⟨⟨"@a"⟩, true, true⟩).amendAll ((s.timeline room).map .append)
    ∃ m ∈ s.timeline room, m.content = .reaction (eventNumbered 3) "+" ∧
      s.scopeOf room m.id = .ofThread room (eventNumbered 1) ∧
      c.scope? m.id = some (.ofThread room (eventNumbered 1)) := by
  intro room calls s c
  let m : Message := ⟨eventNumbered 5, room, ⟨"@b"⟩, 5, .reaction (eventNumbered 3) "+", false⟩
  have hm : m ∈ s.timeline room := by decide +kernel
  have hscope : s.scopeOf room m.id = .ofThread room (eventNumbered 1) := by decide +kernel
  have h := ((scopes_agree_after_calls calls room ⟨⟨"@a"⟩, true, true⟩).1 m hm).2
  exact ⟨m, hm, rfl, hscope, h.trans (congrArg some hscope)⟩

end Server

end ReadTracking
