import Mathlib.Data.List.Forall2
import ReadTracking.Proofs.Progress
import ReadTracking.Proofs.Timelines
import ReadTracking.Proofs.Worlds
import ReadTracking.Session.State

/-!
# The server records what happened

Every happening of the plain account is one event of the server's timeline, in the same order,
and the texts of the account lead to these events.  So what a draft names is found, and an event
is shown in the scope that the account says.  Receipts for events of the timeline are never
turned down, and of several for one slot the furthest stays.
-/

set_option autoImplicit false

namespace ReadTracking

namespace Reference

open ReadTracking.Session

variable {w : World} {i j : Fin roomCount} {h : Happening} {m : Message}

/-! ## Happenings as messages -/

def Happening.own (h : Happening) : Bool := h.role == .join || h.role == .ownMessage

namespace World

inductive Says (w : World) (i : Fin roomCount) (h : Happening) : Content → Prop where
  | joined : h.role = .join → Says w i h (.state false)
  | sent : h.role = .botMessage ∨ h.role = .ownMessage → Says w i h .plain
  | replied {place : Nat} : h.role = .threadReply → h.thread = some place →
      Says w i h (.threadReply ((w.room i).rootId place))
  | edited {target : Happening} : h.role = .relation → target ∈ (w.room i).happenings →
      target.sequence < h.sequence → target.thread = h.thread → Says w i h (.edit target.id)
  | reacted {target : Happening} {key : String} : h.role = .relation →
      target ∈ (w.room i).happenings → target.sequence < h.sequence →
      target.thread = h.thread → Says w i h (.reaction target.id key)

structure Tells (w : World) (i : Fin roomCount) (h : Happening) (m : Message) : Prop where
  id : m.id = h.id
  room : m.room = roomId i
  sequence : m.sequence = h.sequence
  sender : m.sender = me ↔ h.own = true
  content : w.Says i h m.content
  highlight : m.highlight = false

theorem Says.congr {w' : World} {c : Content} (hs : w.Says i h c)
    (hh : (w'.room i).happenings = (w.room i).happenings) : w'.Says i h c := by
  cases hs with
  | joined hr => exact .joined hr
  | sent hr => exact .sent hr
  | replied hr ht =>
    have he : (w.room i).rootId = (w'.room i).rootId := by
      funext place
      unfold Room.rootId
      rw [hh]
    rw [he]
    exact .replied hr ht
  | edited hr hm hlt ht => exact .edited hr (hh ▸ hm) hlt ht
  | reacted hr hm hlt ht => exact .reacted hr (hh ▸ hm) hlt ht

theorem Says.add {c : Content} (hs : w.Says i h c) (hp : (w.room i).HasPlace h.thread)
    (x : Happening) : (w.add j x).Says i h c := by
  cases hs with
  | joined hr => exact .joined hr
  | sent hr => exact .sent hr
  | replied hr ht =>
    have hget := List.getElem?_eq_getElem (hp _ ht)
    rw [rootId_of_getElem? hget, ← rootId_of_getElem? (getElem?_add hget)]
    exact .replied hr ht
  | edited hr hm hlt ht => exact .edited hr (mem_add.2 (.inl hm)) hlt ht
  | reacted hr hm hlt ht => exact .reacted hr (mem_add.2 (.inl hm)) hlt ht

theorem Tells.congr {w' : World} (ht : w.Tells i h m)
    (hh : (w'.room i).happenings = (w.room i).happenings) : w'.Tells i h m :=
  ⟨ht.id, ht.room, ht.sequence, ht.sender, ht.content.congr hh, ht.highlight⟩

theorem Tells.add (ht : w.Tells i h m) (hp : (w.room i).HasPlace h.thread) (x : Happening) :
    (w.add j x).Tells i h m :=
  ⟨ht.id, ht.room, ht.sequence, ht.sender, ht.content.add hp x, ht.highlight⟩

inductive Drafted (w : World) (i : Fin roomCount) : Happening → Draft → Prop where
  | joined {q : Nat} : Drafted w i ⟨none, q, none, .join⟩ (.state false)
  | sent {body : String} {q : Nat} {role : Role} : role = .botMessage ∨ role = .ownMessage →
      Drafted w i ⟨some body, q, none, role⟩ (.plain body)
  | replied {root : Happening} {place q : Nat} {body : String} :
      (w.room i).happenings[place]? = some root → root.canRoot = true →
      Drafted w i ⟨some body, q, some place, .threadReply⟩ (.threadReply root.label body)
  | edited {target : Happening} {q : Nat} {body : String} : target ∈ (w.room i).happenings →
      target.targetable = true →
      Drafted w i ⟨some body, q, target.thread, .relation⟩ (.edit target.label body)
  | reacted {target : Happening} {q : Nat} {key : String} : target ∈ (w.room i).happenings →
      target.targetable = true →
      Drafted w i ⟨none, q, target.thread, .relation⟩ (.reaction target.label key)

theorem targetable_of_canRoot (hr : h.canRoot = true) : h.targetable = true := by
  unfold Happening.canRoot at hr
  unfold Happening.targetable
  rw [hr, Bool.true_or]

theorem body_of_drafted {d : Draft} (hd : w.Drafted i h d) : d.body? = h.body := by
  cases hd <;> rfl

theorem Drafted.fresh {d : Draft} (hw : w.Orderly) (hd : w.Drafted i h d)
    (hq : h.sequence = w.nextSequence) (hgiven : ∀ {body}, h.body = some body →
      (∃ stem n, stem.length = 1 ∧ n ≤ w.labels ∧ body = stem ++ toString n) ∧
        ∀ h' ∈ (w.room i).happenings, h'.body ≠ some body) : w.Fresh i h := by
  cases hd with
  | joined =>
    exact ⟨hq, fun h => (by cases h), fun _ => rfl, fun h => (by cases h),
      fun h => (by cases h), hgiven⟩
  | sent hr =>
    refine ⟨hq, fun h => (by cases h), fun _ => rfl, fun h => ?_, fun _ => ⟨_, rfl⟩, hgiven⟩
    rcases hr with rfl | rfl <;> cases h
  | replied hroot hcan =>
    refine ⟨hq, fun h => ?_, fun h => ?_, fun _ => ⟨_, rfl⟩, fun _ => ⟨_, rfl⟩, hgiven⟩
    · cases h
      exact ⟨_, hroot, hcan⟩
    · rcases h with h | h <;> cases h
  | edited hm _ =>
    refine ⟨hq, fun h => ?_, fun h => ?_, fun h => (by cases h), fun _ => ⟨_, rfl⟩, hgiven⟩
    · obtain ⟨root, hroot, hcan, -⟩ := hw.rooted hm h
      exact ⟨root, hroot, hcan⟩
    · rcases h with h | h <;> cases h
  | reacted hm _ =>
    refine ⟨hq, fun h => ?_, fun h => ?_, fun h => (by cases h), fun h => (by cases h), hgiven⟩
    · obtain ⟨root, hroot, hcan, -⟩ := hw.rooted hm h
      exact ⟨root, hroot, hcan⟩
    · rcases h with h | h <;> cases h

def sender (h : Happening) : UserId := if h.own then me else bot

theorem sender_eq_me_iff : sender h = me ↔ h.own = true := by
  unfold sender
  have hne : bot ≠ me := by decide
  cases h.own with
  | true => simp
  | false => simp [hne]

end World

end Reference

theorem exists_of_forall₂ {α β : Type} {R : α → β → Prop} {xs : List α} {ys : List β}
    (h : List.Forall₂ R xs ys) {x : α} (hx : x ∈ xs) : ∃ y ∈ ys, R x y := by
  induction h with
  | nil => cases hx
  | cons hr _ ih =>
    rcases List.mem_cons.1 hx with rfl | hx
    · exact ⟨_, List.mem_cons_self, hr⟩
    · obtain ⟨y, hy, hr⟩ := ih hx
      exact ⟨y, List.mem_cons_of_mem _ hy, hr⟩

namespace Server

open ReadTracking.Session Reference Reference.World

structure Records (w : World) (s : Server) : Prop where
  timeline : ∀ i : Fin roomCount,
    List.Forall₂ (w.Tells i) (w.room i).happenings (s.timeline (roomId i))
  bodies : ∀ {i : Fin roomCount} {body id}, s.bodies.get? (roomId i, body) = some id ↔
    ∃ h ∈ (w.room i).happenings, h.body = some body ∧ id = h.id
  numbered : s.nextSequence = w.nextSequence
  rejecting : s.rejecting = false

namespace Records

variable {w : World} {s : Server} {i : Fin roomCount} {h : Happening}

theorem exists_tells (hs : s.Records w) {m : Message} (hm : m ∈ s.timeline (roomId i)) :
    ∃ h ∈ (w.room i).happenings, w.Tells i h m :=
  exists_of_forall₂ (hs.timeline i).flip hm

theorem exists_event (hs : s.Records w) (hm : h ∈ (w.room i).happenings) :
    ∃ m ∈ s.timeline (roomId i), w.Tells i h m :=
  exists_of_forall₂ (hs.timeline i) hm

theorem find_timeline (hs : s.Records w) (hw : w.Orderly) (hm : h ∈ (w.room i).happenings) :
    ∃ m, (s.timeline (roomId i)).find? (·.id == h.id) = some m ∧ w.Tells i h m := by
  obtain ⟨m, hmem, ht⟩ := hs.exists_event hm
  cases hf : (s.timeline (roomId i)).find? (·.id == h.id) with
  | none =>
    have := List.find?_eq_none.1 hf m hmem
    simp [ht.id] at this
  | some m' =>
    obtain ⟨h', hm', ht'⟩ := hs.exists_tells (List.mem_of_find?_eq_some hf)
    have hid : m'.id = h.id := by simpa using List.find?_some hf
    obtain ⟨-, rfl⟩ := hw.id_inj hm' hm (ht'.id.symm.trans hid)
    exact ⟨m', rfl, ht'⟩

theorem contains_timelines (hs : s.Records w) (hm : (w.room i).happenings ≠ []) :
    s.timelines.contains (roomId i) = true := by
  cases hc : s.timelines.contains (roomId i) with
  | true => rfl
  | false =>
    have hnil : s.timeline (roomId i) = [] := by
      rw [Server.timeline, Table.contains_eq_false_iff.1 hc, Option.getD_none]
    have hf := hs.timeline i
    rw [hnil, List.forall₂_nil_right_iff] at hf
    exact absurd hf hm

theorem resolve (hs : s.Records w) (hm : h ∈ (w.room i).happenings) {body : String}
    (hb : h.body = some body) : s.resolve (roomId i) body = .ok h.id := by
  unfold Server.resolve
  rw [hs.bodies.2 ⟨h, hm, hb, rfl⟩]

theorem resolve_label (hs : s.Records w) (hw : w.Orderly) (hm : h ∈ (w.room i).happenings)
    (ht : h.targetable = true) : s.resolve (roomId i) h.label = .ok h.id := by
  obtain ⟨body, hb⟩ := hw.labelled hm ht
  refine hs.resolve hm ?_
  rw [Happening.label, hb, Option.getD_some]

theorem scopeOf (hs : s.Records w) (hw : w.Orderly) (hm : h ∈ (w.room i).happenings)
    (ht : h.targetable = true) : s.scopeOf (roomId i) h.id = w.scope i h.thread := by
  obtain ⟨m, hf, hm'⟩ := hs.find_timeline hw hm
  have hpos := List.length_pos_of_mem (List.mem_of_find?_eq_some hf)
  obtain ⟨n, hn⟩ := Nat.exists_eq_succ_of_ne_zero (Nat.ne_of_gt hpos)
  have hc := hm'.content
  unfold Server.scopeOf
  simp only [hn, chase, hf]
  cases hcontent : m.content <;> rw [hcontent] at hc <;> cases hc
  case plain hr =>
    have hthread : h.thread = none := by
      refine hw.main hm (.inl ?_)
      rcases hr with hr | hr <;> simp [Happening.canRoot, hr]
    rw [hthread]
    rfl
  case replied place hr hthread =>
    rw [hthread]
    rfl
  case joined hr => simp [Happening.targetable, hr] at ht
  case edited hr _ _ _ => simp [Happening.targetable, hr] at ht
  case reacted hr _ _ _ => simp [Happening.targetable, hr] at ht

theorem contentOf (hs : s.Records w) (hw : w.Orderly) {d : Draft} (hd : w.Drafted i h d)
    (hq : h.sequence = w.nextSequence) :
    ∃ c, s.contentOf (roomId i) d = .ok c ∧ w.Says i h c := by
  cases hd with
  | joined => exact ⟨_, rfl, .joined rfl⟩
  | sent hr => exact ⟨_, rfl, .sent hr⟩
  | replied hroot hcan =>
    have hm := List.mem_of_getElem? hroot
    simp only [Server.contentOf, hs.resolve_label hw hm (targetable_of_canRoot hcan), Except.map]
    rw [← rootId_of_getElem? hroot]
    exact ⟨_, rfl, .replied rfl rfl⟩
  | edited hm ht =>
    simp only [Server.contentOf, hs.resolve_label hw hm ht, Except.map]
    exact ⟨_, rfl, .edited rfl hm (hq ▸ hw.numbered hm) rfl⟩
  | reacted hm ht =>
    simp only [Server.contentOf, hs.resolve_label hw hm ht, Except.map]
    exact ⟨_, rfl, .reacted rfl hm (hq ▸ hw.numbered hm) rfl⟩

theorem congr {w' : World} {s' : Server} (hs : s.Records w)
    (hh : ∀ i : Fin roomCount, (w'.room i).happenings = (w.room i).happenings)
    (hn : w'.nextSequence = w.nextSequence)
    (htimeline : ∀ i : Fin roomCount, s'.timeline (roomId i) = s.timeline (roomId i))
    (hbodies : s'.bodies = s.bodies) (hnumbered : s'.nextSequence = s.nextSequence)
    (hrejecting : s'.rejecting = s.rejecting) : s'.Records w' where
  timeline i := by
    rw [hh, htimeline]
    exact (hs.timeline i).imp fun _ _ ht => ht.congr (hh i)
  bodies {i body id} := by
    rw [hbodies, hh]
    exact hs.bodies
  numbered := by rw [hnumbered, hn, hs.numbered]
  rejecting := hrejecting.trans hs.rejecting

theorem post (hs : s.Records w) (hw : w.Orderly) {m : Message} (hf : w.Fresh i h)
    (ht : (w.add i h).Tells i h m) :
    (({ s with nextSequence := s.nextSequence + 1 } : Server).post m h.body).Records
      (w.add i h) where
  timeline j := by
    rw [timeline_post, happenings_add, ht.room]
    have hold : List.Forall₂ ((w.add i h).Tells j) (w.room j).happenings
        (s.timeline (roomId j)) := by
      have := (List.forall₂_and_left _ _).2 ⟨fun _ hm => hw.hasPlace hm, hs.timeline j⟩
      exact this.imp fun _ _ ht => ht.2.add ht.1 h
    by_cases e : j = i
    · subst e
      rw [if_pos rfl, if_pos rfl]
      exact List.rel_append hold (.cons ht .nil)
    · rw [if_neg e, if_neg fun he => e (roomId_injective he)]
      exact hold
  bodies {j body id} := by
    have hnew : ∀ {body}, h.body = some body → s.bodies.get? (roomId i, body) = none := by
      intro body hb
      cases hg : s.bodies.get? (roomId i, body) with
      | none => rfl
      | some id =>
        obtain ⟨h', hm, hb', -⟩ := hs.bodies.1 hg
        exact absurd hb' ((hf.given hb).2 h' hm)
    have hold : s.bodies.get? (roomId j, body) = some id ↔
        ∃ h ∈ (w.room j).happenings, h.body = some body ∧ id = h.id := hs.bodies
    have hsplit : (∃ h' ∈ ((w.add i h).room j).happenings, h'.body = some body ∧ id = h'.id) ↔
        s.bodies.get? (roomId j, body) = some id ∨ j = i ∧ h.body = some body ∧ id = h.id := by
      rw [hold]
      constructor
      · rintro ⟨h', hm, hb, hid⟩
        rcases mem_add.1 hm with hm | ⟨rfl, rfl⟩
        · exact .inl ⟨h', hm, hb, hid⟩
        · exact .inr ⟨rfl, hb, hid⟩
      · rintro (⟨h', hm, hb, hid⟩ | ⟨rfl, hb, hid⟩)
        · exact ⟨h', mem_add.2 (.inl hm), hb, hid⟩
        · exact ⟨h, mem_add.2 (.inr ⟨rfl, rfl⟩), hb, hid⟩
    rw [hsplit]
    cases hb : h.body with
    | none => simp [Server.post]
    | some b =>
      simp only [Server.post, ht.room, ht.id]
      by_cases e : (roomId j, body) = (roomId i, b)
      · have hj : j = i := roomId_injective (congrArg Prod.fst e)
        have hbody : body = b := congrArg Prod.snd e
        subst hj hbody
        rw [Table.get?_insert_self, hnew hb]
        simp [eq_comm]
      · rw [Table.get?_insert_of_ne _ _ e]
        constructor
        · exact .inl
        · rintro (hg | ⟨rfl, hbody, -⟩)
          · exact hg
          · exact absurd (congrArg (Prod.mk (roomId j)) (Option.some.inj hbody).symm) e
  numbered := congrArg (· + 1) hs.numbered
  rejecting := hs.rejecting

/-- A draft of something that may happen is sent, and is then recorded. -/
theorem send (hs : s.Records w) (hw : w.Orderly) {d : Draft} (hd : w.Drafted i h d)
    (hf : w.Fresh i h) (hc : s.timelines.contains (roomId i) = true) :
    ∃ m s', s.send (roomId i) (sender h) [d] = (s', .ok [m]) ∧ (w.add i h).Tells i h m ∧
      s'.Records (w.add i h) ∧ s'.receipts = s.receipts := by
  obtain ⟨c, hcontent, hsays⟩ := hs.contentOf hw hd hf.sequence
  have hcontent' : ({ s with nextSequence := s.nextSequence + 1 } : Server).contentOf
      (roomId i) d = .ok c := by
    rw [← hcontent]
    cases d <;> rfl
  have hplace : (w.room i).HasPlace h.thread := by
    intro place ht
    obtain ⟨root, hr, -⟩ := hf.rooted ht
    exact (List.getElem?_eq_some_iff.1 hr).1
  let m : Message := ⟨h.id, roomId i, sender h, h.sequence, c, false⟩
  have ht : (w.add i h).Tells i h m := ⟨rfl, rfl, rfl, sender_eq_me_iff, hsays.add hplace h, rfl⟩
  refine ⟨m, _, ?_, ht, hs.post hw hf ht, rfl⟩
  have hm : (⟨eventNumbered s.nextSequence, roomId i, sender h, s.nextSequence, c, false⟩ :
      Message) = m := by
    rw [hs.numbered, ← hf.sequence]
    rfl
  simp only [Server.send, hc, if_true, sendAll, hcontent', hm, body_of_drafted hd, Except.map]

theorem createRoom (hs : s.Records w) : ∃ s', s.createRoom (roomName i) = (s', roomId i) ∧
    s'.Records w ∧ s'.receipts = s.receipts ∧ s'.timelines.contains (roomId i) = true := by
  unfold Server.createRoom
  by_cases hc : s.timelines.contains (roomNamed (roomName i)) = true
  · exact ⟨s, if_pos hc, hs, rfl, hc⟩
  · refine ⟨_, if_neg hc, ?_, rfl, Table.contains_iff.2 ⟨_, Table.get?_insert_self _ _ _⟩⟩
    refine hs.congr (fun _ => rfl) rfl (fun j => ?_) rfl rfl rfl
    unfold Server.timeline
    by_cases e : roomId j = roomNamed (roomName i)
    · have hnone : s.timelines.get? (roomNamed (roomName i)) = none :=
        Table.contains_eq_false_iff.1 (Bool.eq_false_iff.2 hc)
      rw [e, Table.get?_insert_self, hnone]
      rfl
    · rw [Table.get?_insert_of_ne _ _ e]

end Records

/-! ## Receipts -/

def Has (s : Server) (u : Update) : Prop :=
  ∃ m, (s.timeline u.scope.room).find? (·.id == u.event) = some m ∧ m.sequence = u.sequence

def Backs (s : Server) (user : UserId) (scope : Scope) (q : Nat) : Prop :=
  ∃ kept, s.receipts.get? ⟨user, ⟨scope, .shared⟩⟩ = some kept ∧ q ≤ kept.sequence

structure Receives (user : UserId) (us : List Update) (s s' : Server) : Prop where
  timelines : s'.timelines = s.timelines
  bodies : s'.bodies = s.bodies
  numbered : s'.nextSequence = s.nextSequence
  rejecting : s'.rejecting = s.rejecting
  only : ∀ {key kept}, s'.receipts.get? key = some kept → s.receipts.get? key = some kept ∨
    ∃ u ∈ us, key = ⟨user, ⟨u.scope, .shared⟩⟩ ∧ kept = ⟨u.event, u.sequence⟩
  keeps : ∀ {key kept}, s.receipts.get? key = some kept →
    ∃ kept', s'.receipts.get? key = some kept' ∧ kept.sequence ≤ kept'.sequence

namespace Receives

variable {user : UserId} {us : List Update} {s s' s'' : Server} {u : Update}

theorem refl (user : UserId) (us : List Update) (s : Server) : s.Receives user us s where
  timelines := rfl
  bodies := rfl
  numbered := rfl
  rejecting := rfl
  only h := .inl h
  keeps h := ⟨_, h, Nat.le_refl _⟩

theorem trans (h : s.Receives user us s') (h' : s'.Receives user us s'') :
    s.Receives user us s'' where
  timelines := h'.timelines.trans h.timelines
  bodies := h'.bodies.trans h.bodies
  numbered := h'.numbered.trans h.numbered
  rejecting := h'.rejecting.trans h.rejecting
  only hk := (h'.only hk).elim h.only .inr
  keeps hk := by
    obtain ⟨kept', hk', hle⟩ := h.keeps hk
    obtain ⟨kept'', hk'', hle'⟩ := h'.keeps hk'
    exact ⟨kept'', hk'', Nat.le_trans hle hle'⟩

theorem backs (h : s.Receives user us s') {scope : Scope} {q : Nat}
    (hb : s.Backs user scope q) : s'.Backs user scope q := by
  obtain ⟨kept, hk, hle⟩ := hb
  obtain ⟨kept', hk', hle'⟩ := h.keeps hk
  exact ⟨kept', hk', Nat.le_trans hle hle'⟩

theorem has (h : s.Receives user us s') (hu : s.Has u) : s'.Has u := by
  unfold Has timeline at *
  rw [h.timelines]
  exact hu

theorem records {w : World} (h : s.Receives user us s') (hs : s.Records w) : s'.Records w := by
  refine hs.congr (fun _ => rfl) rfl (fun i => ?_) h.bodies h.numbered h.rejecting
  unfold timeline
  rw [h.timelines]

end Receives

theorem receives_insert {s : Server} {user : UserId} {u : Update} {us : List Update}
    (hus : u ∈ us) (hn : ∀ kept, s.receipts.get? ⟨user, ⟨u.scope, .shared⟩⟩ = some kept →
      kept.sequence < u.sequence) : s.Receives user us { s with
        accepted := s.accepted + 1
        receipts := s.receipts.insert ⟨user, ⟨u.scope, .shared⟩⟩ ⟨u.event, u.sequence⟩ } where
  timelines := rfl
  bodies := rfl
  numbered := rfl
  rejecting := rfl
  only {key kept} hk := by
    by_cases e : key = ⟨user, ⟨u.scope, .shared⟩⟩
    · subst e
      cases (Table.get?_insert_self _ _ _).symm.trans hk
      exact .inr ⟨u, hus, rfl, rfl⟩
    · exact .inl ((Table.get?_insert_of_ne _ _ e).symm.trans hk)
  keeps {key kept} hk := by
    by_cases e : key = ⟨user, ⟨u.scope, .shared⟩⟩
    · subst e
      exact ⟨_, Table.get?_insert_self _ _ _, Nat.le_of_lt (hn kept hk)⟩
    · exact ⟨kept, (Table.get?_insert_of_ne _ _ e).trans hk, Nat.le_refl _⟩

theorem takeReceipt_of_has {s : Server} {u : Update} (user : UserId) {us : List Update}
    (hr : s.rejecting = false) (hu : s.Has u) (hus : u ∈ us) :
    ∃ s', s.takeReceipt user ⟨u.scope, .shared⟩ u.event = (s', .ok ()) ∧
      s.Receives user us s' ∧ s'.Backs user u.scope u.sequence := by
  obtain ⟨m, hm, hs⟩ := hu
  unfold takeReceipt
  rw [if_neg (Bool.eq_false_iff.1 hr)]
  simp only [hm, hs]
  cases hk : s.receipts.get? ⟨user, ⟨u.scope, .shared⟩⟩ with
  | none =>
    refine ⟨_, rfl, receives_insert hus fun kept h => ?_,
      ⟨_, Table.get?_insert_self _ _ _, Nat.le_refl _⟩⟩
    cases hk.symm.trans h
  | some kept =>
    by_cases hlt : kept.sequence < u.sequence
    · simp only [hlt, decide_true, if_true]
      refine ⟨_, rfl, receives_insert hus fun kept' h => ?_,
        ⟨_, Table.get?_insert_self _ _ _, Nat.le_refl _⟩⟩
      cases hk.symm.trans h
      exact hlt
    · simp only [hlt, decide_false, Bool.false_eq_true, if_false]
      exact ⟨_, rfl, ⟨rfl, rfl, rfl, rfl, .inl, fun h => ⟨_, h, Nat.le_refl _⟩⟩,
        ⟨kept, hk, Nat.not_lt.1 hlt⟩⟩

end Server

namespace Session

variable {σ : Type}

theorem carry_of_has (fetch : Fetch → Session σ → Session σ × Except Refusal Unit)
    {s : Session σ} {us : List Update} {actions : List Action}
    (hr : s.server.rejecting = false) (hus : ∀ u ∈ us, s.server.Has u)
    (ha : ∀ a ∈ actions, a.isWarning = true ∨ ∃ u ∈ us, a = .send u.scope u.event .shared) :
    ∃ server unsaved, carry fetch actions s = ({ s with server, unsaved }, .ok ()) ∧
      s.server.Receives me us server ∧
      ∀ u ∈ us, .send u.scope u.event .shared ∈ actions →
        server.Backs me u.scope u.sequence := by
  induction actions generalizing s with
  | nil =>
    exact ⟨_, _, rfl, .refl _ _ _, fun u _ hm => by cases hm⟩
  | cons a actions ih =>
    have hrest := fun a hm => ha a (List.mem_cons_of_mem _ hm)
    rcases ha a List.mem_cons_self with hwarn | ⟨u, hu, rfl⟩
    · cases a with
      | send => cases hwarn
      | fetch => cases hwarn
      | unsaved scope v why =>
        obtain ⟨server, unsaved, he, hreceives, hbacks⟩ :=
          ih (s := { s with unsaved := s.unsaved + 1 }) hr hus hrest
        refine ⟨server, unsaved, he, hreceives, fun u hu hm => ?_⟩
        rcases List.mem_cons.1 hm with hm | hm
        · cases hm
        · exact hbacks u hu hm
    · obtain ⟨server₁, htake, hreceives₁, hbacks₁⟩ :=
        Server.takeReceipt_of_has me hr (hus u hu) hu
      have hsent : s.deliverReceipt u.scope u.event .shared = { s with server := server₁ } := by
        simp only [deliverReceipt, htake]
      obtain ⟨server, unsaved, he, hreceives, hbacks⟩ := ih (s := { s with server := server₁ })
        (hreceives₁.rejecting.trans hr) (fun u hu => hreceives₁.has (hus u hu)) hrest
      refine ⟨server, unsaved, ?_, hreceives₁.trans hreceives, fun u' hu' hm => ?_⟩
      · simp only [carry, hsent]
        exact he
      · rcases List.mem_cons.1 hm with hm | hm
        · injection hm with hscope hevent
          obtain ⟨m, hm, hs⟩ := hus u hu
          obtain ⟨m', hm', hs'⟩ := hus u' hu'
          rw [hscope, hevent, hm] at hm'
          cases hm'
          rw [hscope, ← hs', hs]
          exact hreceives.backs hbacks₁
        · exact hbacks u' hu' hm

end Session

end ReadTracking
