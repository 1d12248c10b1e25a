import Mathlib.Data.List.Forall2
import ReadTracking.Backing.Rationed
import ReadTracking.Backing.Shelf
import ReadTracking.Proofs.Conduct

/-!
# Reading never goes back

As all that commands do to markers is to grant wishes, no marker ever goes back.  Whoever has
read further has less unread: fewer messages lie behind the marker, and fewer gaps.  So a command
that brings no messages only ever eases the read state of every room.
-/

set_option autoImplicit false

namespace ReadTracking

/-! ## Reading further leaves less unread -/

namespace Strand

variable (s : Strand) {q q' : Nat}

theorem sublist_after (h : q ≤ q') :
    (s.after (some (.past q'))).Sublist (s.after (some (.past q))) := by
  refine List.Sublist.map _ (List.monotone_filter_right _ fun p hp => ?_)
  simp only [Cursor.isBefore, decide_eq_true_eq] at hp ⊢
  exact Nat.lt_of_le_of_lt h hp

theorem sublist_after_none (cursor : Option Cursor) :
    (s.after cursor).Sublist (s.after none) := by
  cases cursor with
  | none => exact .refl _
  | some k => exact List.Sublist.map _ List.filter_sublist

theorem hasGapAfter_of_le (h : q ≤ q') (hg : s.hasGapAfter (some q') = true) :
    s.hasGapAfter (some q) = true := by
  obtain ⟨g, hmem, hlt⟩ := List.any_eq_true.1 hg
  refine List.any_eq_true.2 ⟨g, hmem, ?_⟩
  rw [decide_eq_true_eq] at hlt ⊢
  exact Nat.lt_of_le_of_lt h hlt

theorem hasGapAfter_none {after : Option Nat} (hg : s.hasGapAfter after = true) :
    s.hasGapAfter none = true := by
  cases after with
  | none => exact hg
  | some q =>
    obtain ⟨g, hmem, -⟩ := List.any_eq_true.1 hg
    obtain ⟨v, hv⟩ := Table.mem_keys.1 hmem
    show (!s.gaps.isEmpty) = true
    cases he : s.gaps.isEmpty with
    | false => rfl
    | true =>
      rw [Table.isEmpty_iff.1 he g] at hv
      cases hv

end Strand

structure ScopeCount.Eases (n n' : ScopeCount) : Prop where
  unread : n'.unread ≤ n.unread
  highlights : n'.highlights ≤ n.highlights
  incomplete : n'.incomplete = true → n.incomplete = true

structure ThreadState.Eases (s s' : ThreadState) : Prop where
  root : s'.root = s.root
  unread : s'.unread ≤ s.unread
  highlights : s'.highlights ≤ s.highlights
  hasUnread : s'.hasUnread = true → s.hasUnread = true
  rootKnown : s'.rootKnown = s.rootKnown
  incomplete : s'.incomplete = true → s.incomplete = true

structure RoomState.Eases (s s' : RoomState) : Prop where
  room : s'.room = s.room
  mainUnread : s'.mainUnread ≤ s.mainUnread
  mainHighlights : s'.mainHighlights ≤ s.mainHighlights
  roots : s'.threads.map (·.root) = s.threads.map (·.root)
  threads : List.Forall₂ ThreadState.Eases s.threads s'.threads
  unread : s'.unread ≤ s.unread
  highlights : s'.highlights ≤ s.highlights
  isUnread : s'.isUnread = true → s.isUnread = true
  incomplete : s'.incomplete = true → s.incomplete = true

namespace ThreadState

variable {l l' : List ThreadState}

theorem Eases.refl (s : ThreadState) : s.Eases s :=
  ⟨rfl, Nat.le_refl _, Nat.le_refl _, id, rfl, id⟩

theorem Eases.roots (h : List.Forall₂ Eases l l') : l'.map (·.root) = l.map (·.root) := by
  induction h with
  | nil => rfl
  | cons h _ ih => rw [List.map_cons, List.map_cons, h.root, ih]

theorem Eases.total {count : ThreadState → Nat} (hcount : ∀ s s', s.Eases s' → count s' ≤ count s)
    (h : List.Forall₂ Eases l l') : ThreadState.total count l' ≤ ThreadState.total count l := by
  induction h with
  | nil => exact Nat.le_refl _
  | cons h _ ih => exact Nat.add_le_add (hcount _ _ h) ih

theorem Eases.any {p : ThreadState → Bool}
    (hp : ∀ s s', s.Eases s' → p s' = true → p s = true) (h : List.Forall₂ Eases l l')
    (hany : l'.any p = true) : l.any p = true := by
  induction h with
  | nil => exact hany
  | cons h _ ih =>
    simp only [List.any_cons, Bool.or_eq_true] at hany ⊢
    exact hany.imp (hp _ _ h) ih

end ThreadState

section Counting

variable {σ τ : Type} (c : Chronicle) {b : MarkerBook σ} {b' : MarkerBook τ}
  (h : ∀ s q, b.readTo s = some q → ∃ q', b'.readTo s = some q' ∧ q ≤ q')

include h

theorem eases_countScope (s : Scope) : (countScope c b s).Eases (countScope c b' s) := by
  have hcut : (c.eventsAfter s ((b'.readTo s).map .past)).Sublist
      (c.eventsAfter s ((b.readTo s).map .past)) := by
    rw [c.eventsAfter_eq, c.eventsAfter_eq]
    refine List.Sublist.filterMap _ ?_
    cases hq : b.readTo s with
    | none => exact (c.strand s).sublist_after_none _
    | some q =>
      obtain ⟨q', hq', hle⟩ := h s q hq
      rw [hq']
      exact (c.strand s).sublist_after hle
  have hgap : c.hasGapAfter s (b'.readTo s) = true → c.hasGapAfter s (b.readTo s) = true := by
    rw [c.hasGapAfter_eq, c.hasGapAfter_eq]
    cases hq : b.readTo s with
    | none => exact (c.strand s).hasGapAfter_none
    | some q =>
      obtain ⟨q', hq', hle⟩ := h s q hq
      rw [hq']
      exact (c.strand s).hasGapAfter_of_le hle
  have hpending := hcut.filter (·.countable)
  refine ⟨?_, (hpending.filter _).length_le, hgap⟩
  have hlen := hpending.length_le
  simp only [countScope]
  cases hg' : c.hasGapAfter s (b'.readTo s) with
  | true =>
    rw [hgap hg']
    simp only [if_true]
    omega
  | false =>
    simp only [Bool.false_eq_true, if_false]
    split <;> omega

theorem eases_threadState (room : RoomId) (root : EventId) :
    Option.Rel ThreadState.Eases (threadState c b room root) (threadState c b' room root) := by
  unfold threadState
  split
  · have hn := eases_countScope c h (.ofThread room root)
    refine .some ⟨rfl, hn.unread, hn.highlights, fun hu => ?_, rfl, hn.incomplete⟩
    have hu := of_decide_eq_true hu
    exact decide_eq_true (Nat.lt_of_lt_of_le hu hn.unread)
  · split
    · exact .some (.refl _)
    · exact .none

theorem eases_roomState (room : RoomId) :
    (roomState c b room).Eases (roomState c b' room) := by
  have hmain := eases_countScope c h (.ofRoom room)
  have hthreads : List.Forall₂ ThreadState.Eases
      ((c.threads room).filterMap (threadState c b room))
      ((c.threads room).filterMap (threadState c b' room)) := by
    refine List.rel_filterMap (R := Eq) ?_ (List.forall₂_refl _)
    rintro root _ rfl
    exact eases_threadState c h room root
  refine ⟨rfl, hmain.unread, hmain.highlights, ThreadState.Eases.roots hthreads, hthreads,
    ?_, ?_, ?_, ?_⟩
  · exact Nat.add_le_add hmain.unread (ThreadState.Eases.total (fun _ _ h => h.unread) hthreads)
  · exact Nat.add_le_add hmain.highlights
      (ThreadState.Eases.total (fun _ _ h => h.highlights) hthreads)
  · simp only [roomState, Bool.or_eq_true, decide_eq_true_eq]
    refine Or.imp (fun hu => Nat.lt_of_lt_of_le hu hmain.unread) ?_
    exact ThreadState.Eases.any (fun _ _ h => h.hasUnread) hthreads
  · simp only [roomState, Bool.or_eq_true]
    exact Or.imp hmain.incomplete (ThreadState.Eases.any (fun _ _ h => h.incomplete) hthreads)

end Counting

/-! ## Moments and courses -/

theorem Onward.readTo {σ τ : Type} {b : MarkerBook σ} {b' : MarkerBook τ}
    (h : Onward b.marks b'.marks) {s : Scope} {q : Nat} (hq : b.readTo s = some q) :
    ∃ q', b'.readTo s = some q' ∧ q ≤ q' := by
  have hc : b.covers s q = true := MarkerBook.covers_iff_readTo.2 ⟨q, hq, Nat.le_refl q⟩
  obtain ⟨v, hr⟩ := MarkerBook.covers_iff_reaches.1 hc
  exact MarkerBook.covers_iff_readTo.1 (MarkerBook.covers_iff_reaches.2 ⟨v, h.reaches hr⟩)

def Command.brings : Command → Bool
  | .supply _ _ | .receive _ _ _ | .backfill _ _ _ => true
  | .markRoomRead _ | .viewRoom _ | .viewThread _ _ | .closeThread | .leave | .jump _ _ _
  | .receipt _ _ _ _ _ | .sendFailed _ _ _ | .forget _ | .tick _ => false

namespace Tracker

variable {σ : Type} [Backing σ] {t : Tracker σ}

omit [Backing σ] in
theorem batch?_of_not_brings {c : Command} (h : c.brings = false) : t.batch? c = none := by
  cases c with
  | supply | receive | backfill => cases h
  | markRoomRead | viewRoom | viewThread | closeThread | leave | jump | receipt | sendFailed
  | forget | tick => rfl

theorem onward_meet {m : Moment} (h : ∀ room, m ≠ .command (.forget room)) :
    Onward t.book.marks (t.meet m).tracker.book.marks := by
  cases m with
  | surroundings | subscribe | unsubscribe => exact .refl _
  | command c =>
    obtain ⟨ws, place, hc⟩ := t.conducts c fun room e => h room (congrArg Moment.command e)
    have hmarks : (t.loaded c).book.marks = t.book.marks := by
      unfold loaded
      split <;> rfl
    rw [← hmarks]
    exact hc.grants.marks ▸ Wish.onward_grantAll _ _ ws

theorem onward_after {ms : List Moment} (h : ∀ room, .command (.forget room) ∉ ms) :
    Onward t.book.marks (t.after ms).book.marks :=
  after_keeps (P := fun u => Onward t.book.marks u.book.marks) (.refl _) fun _ hm _ hu =>
    hu.trans (onward_meet fun room e => h room (e ▸ hm))

/-- Whatever the storage does, every marker stays or goes further at every moment that forgets no
room, so no scope is ever read less far than it was.  And a command that brings no messages
leaves the list of threads of every room as it is, raises no count, and makes nothing unread or
incomplete that was not. -/
theorem reading_never_goes_back (t : Tracker σ) :
    (∀ m, (∀ room, m ≠ .command (.forget room)) →
      Onward t.book.marks (t.meet m).tracker.book.marks) ∧
    (∀ ms, (∀ room, .command (.forget room) ∉ ms) → ∀ s q, t.book.readTo s = some q →
      ∃ q', (t.after ms).book.readTo s = some q' ∧ q ≤ q') ∧
    ∀ c : Command, c.brings = false → (∀ room, c ≠ .forget room) → ∀ room,
      (t.roomState room).Eases ((t.handle c).tracker.roomState room) ∧
      ∀ root, Option.Rel ThreadState.Eases (t.threadState room root)
        ((t.handle c).tracker.threadState room root) := by
  refine ⟨fun m hm => onward_meet hm, fun ms hms s q hq => (onward_after hms).readTo hq, ?_⟩
  intro c hc hf room
  obtain ⟨ws, place, hconduct⟩ := t.conducts c hf
  have hg := hconduct.grants
  rw [loaded_eq_self (batch?_of_not_brings hc)] at hg
  have honward : Onward t.book.marks (t.handle c).tracker.book.marks :=
    hg.marks ▸ Wish.onward_grantAll _ _ ws
  have hread := fun s q (hq : t.book.readTo s = some q) => honward.readTo hq
  unfold roomState threadState
  rw [hg.chronicle]
  exact ⟨eases_roomState t.chronicle hread room, eases_threadState t.chronicle hread room⟩

/-- The room was read up to its first message, and viewing it reads the second, though the storage
takes no call. -/
theorem reading_goes_on_in_a_room :
    let room : RoomId := ⟨"!r"⟩
    let book : MarkerBook (Rationed Shelf) := ⟨⟨.empty, some 0, 0⟩, .empty, .empty⟩
    let t := (fresh .counting {} ⟨"@me"⟩ book).after
      [.command (.receive room [⟨⟨"$1"⟩, room, ⟨"@bot"⟩, 1, .plain, false⟩] false),
        .command (.viewRoom room), .command .leave,
        .command (.receive room [⟨⟨"$2"⟩, room, ⟨"@bot"⟩, 2, .plain, true⟩] false)]
    let t' := (t.handle (.viewRoom room)).tracker
    Onward t.book.marks t'.book.marks ∧
      (∃ q', t'.book.readTo (.ofRoom room) = some q' ∧ 1 ≤ q') ∧
      (t.roomState room).Eases (t'.roomState room) ∧
      ((t.roomState room).unread, (t'.roomState room).unread) = (1, 0) := by
  intro room book t t'
  obtain ⟨hmeet, hafter, hquiet⟩ := reading_never_goes_back t
  refine ⟨hmeet (.command (.viewRoom room)) nofun, ?_, ?_, by decide⟩
  · refine hafter [.command (.viewRoom room)] ?_ (.ofRoom room) 1 (by decide)
    exact fun _ h => nomatch List.mem_singleton.1 h
  · exact (hquiet (.viewRoom room) rfl nofun room).1

end Tracker

end ReadTracking
