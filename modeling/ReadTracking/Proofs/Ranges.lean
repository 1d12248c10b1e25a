import ReadTracking.Proofs.Scanning

/-!
# Ranges of a scope

The messages of a scope are asked for by ranges: those behind a cut, the last one, the last one up
to a sequence, how many there are.  Each answer is read off the strand of the scope.  Here it is
compared with the list that is found by going through all indexed messages, keeping those that are
meant, and sorting them.  A strand stands for exactly that list, so a cut splits it in two, and
the scopes together hold every message once.
-/

set_option autoImplicit false

namespace ReadTracking

open KeyOrder

/-! ## Lists -/

theorem filter_append_filter_not {α : Type} {keep : α → Bool} {l : List α}
    (h : l.Pairwise fun a b => keep b = true → keep a = true) :
    l.filter keep ++ l.filter (fun a => !keep a) = l := by
  induction l with
  | nil => rfl
  | cons a l ih =>
    obtain ⟨ha, hl⟩ := List.pairwise_cons.1 h
    cases hk : keep a with
    | true => simp [hk, ih hl]
    | false =>
      have hnone : l.filter keep = [] := by
        apply List.filter_eq_nil_iff.2
        intro b hb hkept
        rw [ha b hb hkept] at hk
        cases hk
      have hall : l.filter (fun b => !keep b) = l := by
        apply List.filter_eq_self.2
        intro b hb
        simpa using List.filter_eq_nil_iff.1 hnone b hb
      simp [hk, hnone, hall]

namespace Chronicle

def sift (c : Chronicle) (s : Scope) (keep : Indexed → Bool) : List Indexed :=
  (c.events.values.filter fun e => decide (e.scope = s) && keep e).mergeSort fun e e' =>
    !decide (before e'.position e.position)

def upTo (c : Chronicle) (s : Scope) : Option Indexed → List Indexed
  | none => []
  | some e => c.sift s fun e' => !decide (before e.position e'.position)

def allScopes (c : Chronicle) : List Scope := c.rooms.keys.flatMap c.scopes

def lengthOf (c : Chronicle) (ss : List Scope) : Nat :=
  ss.foldr (fun s n => c.scopeLength s + n) 0

variable {c : Chronicle}

/-! ## Sifting -/

theorem Sound.mem_sift (hc : c.Sound) {s : Scope} {keep : Indexed → Bool} {e : Indexed} :
    e ∈ c.sift s keep ↔ c.get? e.message.id = some e ∧ e.scope = s ∧ keep e = true := by
  rw [sift, List.mem_mergeSort, List.mem_filter, hc.mem_values, Bool.and_eq_true,
    decide_eq_true_eq]

theorem Sound.eq_of_position (hc : c.Sound) {e e' : Indexed}
    (he : c.get? e.message.id = some e) (he' : c.get? e'.message.id = some e')
    (hs : e.scope = e'.scope) (hp : e.position = e'.position) : e = e' := by
  have hstands := hc.stands he
  rw [hs, hp, hc.stands he'] at hstands
  rw [← Option.some.inj hstands, he'] at he
  exact (Option.some.inj he).symm

theorem Sound.eq_sift (hc : c.Sound) {s : Scope} {keep : Indexed → Bool} {l : List Indexed}
    (hordered : l.Pairwise Indexed.Precedes) (hmem : ∀ e, e ∈ l ↔
      c.get? e.message.id = some e ∧ e.scope = s ∧ keep e = true) : l = c.sift s keep := by
  have hrising : l.Pairwise fun e e' => before e.position e'.position :=
    hordered.imp fun h => (pairBefore_iff _ _).2 h
  have hsorted : (c.sift s keep).Pairwise fun e e' => ¬ before e'.position e.position :=
    Table.pairwise_mergeSort_key (fun e : Indexed => e.position) _
  have honce : l.Nodup := hrising.imp fun h he => ne_of_before h (congrArg Indexed.position he)
  have honce' : (c.sift s keep).Nodup :=
    (List.mergeSort_perm _ _).nodup_iff.2 (hc.nodup_values.filter _)
  have hperm : l.Perm (c.sift s keep) := by
    apply (List.perm_ext_iff_of_nodup honce honce').2
    intro e
    rw [hmem, hc.mem_sift]
  apply List.Perm.eq_of_pairwise _ (hrising.imp fun h => KeyOrder.asymm h) hsorted hperm
  intro e e' he he' h h'
  obtain ⟨hget, hs, -⟩ := (hmem e).1 he
  obtain ⟨hget', hs', -⟩ := hc.mem_sift.1 he'
  exact hc.eq_of_position hget hget' (hs.trans hs'.symm) (connected h' h)

/-! ## A strand stands for its messages -/

theorem filterMap_get?_id {l : List Indexed} (h : ∀ e ∈ l, c.get? e.message.id = some e) :
    (l.map fun e => e.message.id).filterMap c.get? = l := by
  rw [List.filterMap_map]
  exact (List.filterMap_congr h).trans List.filterMap_some

theorem Sound.entries_strand (hc : c.Sound) (s : Scope) : (c.strand s).entries.entries =
    (c.eventsAfter s none).map fun e => (e.position, e.message.id) := by
  have hindexed : ∀ p ∈ (c.strand s).entries.entries,
      ∃ e, c.get? p.2 = some e ∧ (e.position, e.message.id) = p := by
    intro p hp
    obtain ⟨e, he, -, hpos⟩ := hc.indexed ((Table.get?_eq_some_iff _).2 hp)
    exact ⟨e, he, Prod.ext hpos (hc.named he)⟩
  rw [eventsAfter_eq, Strand.after, Table.values, List.filterMap_map, List.map_filterMap]
  symm
  refine (List.filterMap_congr fun p hp => ?_).trans List.filterMap_some
  obtain ⟨e, he, heq⟩ := hindexed p hp
  rw [Function.comp_apply, he, Option.map_some, heq]

theorem Sound.entries_filter (hc : c.Sound) (s : Scope) (keep : Position → Bool) :
    ((c.strand s).entries.filter fun p _ => keep p).entries =
      ((c.eventsAfter s none).filter fun e => keep e.position).map
        fun e => (e.position, e.message.id) := by
  show (c.strand s).entries.entries.filter (fun p => keep p.1) = _
  rw [hc.entries_strand, List.filter_map]
  rfl

theorem Sound.get?_of_mem (hc : c.Sound) {s : Scope} {e : Indexed}
    (h : e ∈ c.eventsAfter s none) : c.get? e.message.id = some e :=
  (hc.mem_eventsAfter_none.1 h).1

theorem Sound.eventsAfter_eq_filter (hc : c.Sound) (s : Scope) (cursor : Option Cursor) :
    c.eventsAfter s cursor =
      (c.eventsAfter s none).filter fun e => cursor.all (·.isBefore e.position) := by
  cases cursor with
  | none => exact (List.filter_eq_self.2 fun _ _ => rfl).symm
  | some k =>
    rw [eventsAfter_eq, Strand.after, Table.values, hc.entries_filter s k.isBefore, List.map_map]
    apply filterMap_get?_id
    intro e he
    exact hc.get?_of_mem (List.mem_of_mem_filter he)

theorem Sound.last_eq_getLast? (hc : c.Sound) (s : Scope) (keep : Position → Bool) :
    (((c.strand s).entries.filter fun p _ => keep p).last?.map (·.2)).bind c.get? =
      ((c.eventsAfter s none).filter fun e => keep e.position).getLast? := by
  rw [Table.last?, hc.entries_filter, List.getLast?_map, Option.map_map, Option.bind_map]
  cases hlast : ((c.eventsAfter s none).filter fun e => keep e.position).getLast? with
  | none => rfl
  | some e => exact hc.get?_of_mem (List.mem_of_mem_filter (List.mem_of_getLast? hlast))

theorem scopeLength_eq (c : Chronicle) (s : Scope) :
    c.scopeLength s = (c.strand s).entries.size := by
  rw [← strand?_getD, scopeLength]
  cases c.strand? s <;> rfl

theorem Sound.scopeLength_eq_length (hc : c.Sound) (s : Scope) :
    c.scopeLength s = (c.eventsAfter s none).length := by
  rw [scopeLength_eq, Table.size, hc.entries_strand, List.length_map]

theorem Sound.filter_eq_sift (hc : c.Sound) (s : Scope) (keep : Indexed → Bool) :
    (c.eventsAfter s none).filter keep = c.sift s keep := by
  apply hc.eq_sift ((hc.ordered_eventsAfter s).filter keep)
  intro e
  rw [List.mem_filter, hc.mem_eventsAfter_none, and_assoc]

theorem Sound.eventsAfter_eq_sift (hc : c.Sound) (s : Scope) (cursor : Option Cursor) :
    c.eventsAfter s cursor = c.sift s fun e => cursor.all (·.isBefore e.position) := by
  rw [hc.eventsAfter_eq_filter, hc.filter_eq_sift]

theorem Sound.eventsAfter_none_eq_sift (hc : c.Sound) (s : Scope) :
    c.eventsAfter s none = c.sift s fun _ => true :=
  hc.eventsAfter_eq_sift s none

theorem Sound.sift_congr (hc : c.Sound) {s : Scope} {keep keep' : Indexed → Bool}
    (h : ∀ e, c.get? e.message.id = some e → e.scope = s → keep e = keep' e) :
    c.sift s keep = c.sift s keep' := by
  rw [← hc.filter_eq_sift, ← hc.filter_eq_sift]
  apply List.filter_congr
  intro e he
  obtain ⟨hget, hs⟩ := hc.mem_eventsAfter_none.1 he
  exact h e hget hs

theorem Sound.sift_eq_nil_iff (hc : c.Sound) {s : Scope} {keep : Indexed → Bool} :
    c.sift s keep = [] ↔ ∀ id e, c.get? id = some e → e.scope = s → keep e = false := by
  rw [List.eq_nil_iff_forall_not_mem]
  simp only [hc.mem_sift, not_and, Bool.not_eq_true]
  constructor
  · intro h id e he
    exact h e (by rw [hc.named he, he])
  · intro h e he
    exact h e.message.id e he

/-! ## Cuts -/

theorem Sound.before_arrival_iff (hc : c.Sound) {e : Indexed} {q arrival : Nat}
    (ha : c.nextArrival ≤ arrival) (he : c.get? e.message.id = some e) :
    before (⟨q, arrival⟩ : Position) e.position ↔ q < e.message.sequence := by
  have hlt := Nat.lt_of_lt_of_le (hc.arrived he) ha
  rw [← hc.numbered he]
  refine (pairBefore_iff _ _).trans ⟨?_, .inl⟩
  rintro (h | ⟨-, h⟩)
  · exact h
  · exact absurd hlt (Nat.lt_asymm h)

theorem Sound.latest_eq_sift (hc : c.Sound) (s : Scope) :
    c.latest s = (c.sift s fun _ => true).getLast? := by
  rw [latest_eq_filter, hc.last_eq_getLast? s fun _ => true, hc.filter_eq_sift]

theorem Sound.floor_eq_sift (hc : c.Sound) (s : Scope) (q : Nat) :
    c.floor s q = (c.sift s fun e => decide (e.message.sequence ≤ q)).getLast? := by
  rw [floor_eq, Strand.floor, hc.last_eq_getLast? s fun p => decide (p.sequence ≤ q),
    hc.filter_eq_sift]
  congr 1
  apply hc.sift_congr
  intro e he _
  rw [hc.numbered he]

theorem Sound.floor_eq_none_iff (hc : c.Sound) {s : Scope} {q : Nat} : c.floor s q = none ↔
    ∀ id e, c.get? id = some e → e.scope = s → q < e.message.sequence := by
  rw [hc.floor_eq_sift, List.getLast?_eq_none_iff, hc.sift_eq_nil_iff]
  simp only [decide_eq_false_iff_not, Nat.not_le]

/-- Up to the floor of a sequence lie the messages whose sequence is at most that one. -/
theorem Sound.upTo_floor (hc : c.Sound) (s : Scope) (q : Nat) :
    c.upTo s (c.floor s q) = c.sift s fun e => decide (e.message.sequence ≤ q) := by
  cases hfloor : c.floor s q with
  | none =>
    symm
    apply hc.sift_eq_nil_iff.2
    intro id e he hs
    exact decide_eq_false (Nat.not_le.2 (hc.floor_eq_none_iff.1 hfloor id e he hs))
  | some head =>
    obtain ⟨-, -, hq, hlast⟩ := hc.floor_eq_some hfloor
    apply hc.sift_congr
    intro e he hs
    rw [← hc.numbered he, ← decide_not, decide_eq_decide]
    constructor
    · intro hnot
      refine Nat.le_trans (Nat.not_lt.1 fun hlt => ?_) hq
      exact hnot ((pairBefore_iff _ _).2 (.inl hlt))
    · exact hlast he hs

theorem Sound.split_at_floor (hc : c.Sound) (s : Scope) (q : Nat) : c.eventsAfter s none =
    c.upTo s (c.floor s q) ++ c.eventsAfter s (some (.past q)) := by
  have hnot : c.eventsAfter s (some (.past q)) =
      (c.eventsAfter s none).filter fun e => !decide (e.message.sequence ≤ q) := by
    rw [hc.filter_eq_sift, hc.eventsAfter_eq_sift]
    apply hc.sift_congr
    intro e he _
    rw [← hc.numbered he, ← decide_not]
    simp only [Option.all_some, Cursor.isBefore, Nat.not_le]
  rw [hc.upTo_floor, ← hc.filter_eq_sift, hnot]
  symm
  apply filter_append_filter_not
  refine (hc.ordered_eventsAfter s).imp_of_mem fun {e e'} he he' hprecedes hkeep => ?_
  have hq := hc.numbered (hc.get?_of_mem he)
  have hq' := hc.numbered (hc.get?_of_mem he')
  simp only [decide_eq_true_eq, Indexed.Precedes] at hkeep hprecedes ⊢
  omega

/-! ## Gaps -/

theorem hasGapAfter_iff_lastGap (c : Chronicle) (s : Scope) (q : Nat) :
    c.hasGapAfter s (some q) = true ↔ ∃ g, c.lastGap s = some g ∧ q < g := by
  rw [hasGapAfter_eq, lastGap_eq, Strand.lastGap, Strand.hasGapAfter, List.any_eq_true]
  simp only [Table.mem_keys, decide_eq_true_eq, Option.map_eq_some_iff]
  constructor
  · rintro ⟨g, ⟨v, hg⟩, hq⟩
    cases hlast : (c.strand s).gaps.last? with
    | none =>
      rw [Table.last?_eq_none_iff.1 hlast] at hg
      cases hg
    | some last =>
      have hle := Nat.not_lt.1 ((Table.last?_eq_some_iff.1 hlast).2 g v hg)
      exact ⟨last.1, ⟨last, rfl, rfl⟩, Nat.lt_of_lt_of_le hq hle⟩
  · rintro ⟨g, ⟨last, hlast, rfl⟩, hq⟩
    exact ⟨last.1, ⟨last.2, (Table.last?_eq_some_iff.1 hlast).1⟩, hq⟩

theorem hasGapAfter_none_eq (c : Chronicle) (s : Scope) :
    c.hasGapAfter s none = (c.lastGap s).isSome := by
  rw [hasGapAfter_eq, lastGap_eq, Strand.lastGap, Strand.hasGapAfter, Table.isEmpty, Table.last?]
  cases (c.strand s).gaps.entries with
  | nil => rfl
  | cons p ps => simp

/-! ## All scopes -/

theorem mem_scopes_iff {room : RoomId} {thread : Option EventId} :
    (⟨room, thread⟩ : Scope) ∈ c.scopes room ↔
      ∀ root, thread = some root → c.hasThread room root = true := by
  rw [scopes, List.mem_cons, List.mem_map]
  cases thread with
  | none => simp [Scope.ofRoom]
  | some root => simp [Scope.ofRoom, Scope.ofThread, mem_threads]

theorem mem_allScopes {s : Scope} : s ∈ c.allScopes ↔ (c.strand? s).isSome = true := by
  obtain ⟨room, thread⟩ := s
  rw [allScopes, List.mem_flatMap]
  constructor
  · rintro ⟨room', hroom, h⟩
    cases room_of_mem_scopes h
    obtain ⟨log, hlog⟩ := Table.mem_keys.1 hroom
    simp only [strand?, hlog, Option.bind_some]
    cases thread with
    | none => rfl
    | some root =>
      have hthread := mem_scopes_iff.1 h root rfl
      simp only [hasThread, hlog] at hthread
      exact hthread
  · intro h
    obtain ⟨strand, hstrand⟩ := Option.isSome_iff_exists.1 h
    obtain ⟨log, hlog, hstrand⟩ := Option.bind_eq_some_iff.1 hstrand
    refine ⟨room, Table.mem_keys.2 ⟨log, hlog⟩, mem_scopes_iff.2 ?_⟩
    rintro root rfl
    simp only [hasThread, hlog]
    exact Table.contains_iff.2 ⟨strand, hstrand⟩

theorem nodup_allScopes (c : Chronicle) : c.allScopes.Nodup := by
  rw [allScopes, List.nodup_flatMap]
  refine ⟨fun room _ => c.nodup_scopes room, ?_⟩
  refine (Table.nodup_keys c.rooms).imp fun hne s h h' => ?_
  exact hne ((room_of_mem_scopes h).symm.trans (room_of_mem_scopes h'))

theorem Sound.lengthOf_eq (hc : c.Sound) (ss : List Scope) :
    c.lengthOf ss = (ss.flatMap fun s => c.eventsAfter s none).length := by
  induction ss with
  | nil => rfl
  | cons s ss ih =>
    rw [List.flatMap_cons, List.length_append, ← ih, ← hc.scopeLength_eq_length]
    rfl

theorem Sound.perm_allScopes (hc : c.Sound) :
    (c.allScopes.flatMap fun s => c.eventsAfter s none).Perm c.events.values := by
  have honce : (c.allScopes.flatMap fun s => c.eventsAfter s none).Nodup := by
    rw [List.nodup_flatMap]
    refine ⟨fun s _ => hc.nodup_eventsAfter s none, ?_⟩
    refine c.nodup_allScopes.imp fun hne e h h' => ?_
    exact hne ((hc.mem_eventsAfter_none.1 h).2.symm.trans (hc.mem_eventsAfter_none.1 h').2)
  apply (List.perm_ext_iff_of_nodup honce hc.nodup_values).2
  intro e
  rw [List.mem_flatMap, hc.mem_values]
  constructor
  · rintro ⟨s, -, h⟩
    exact hc.get?_of_mem h
  · intro he
    obtain ⟨log, hlog⟩ := Table.contains_iff.1 (hc.contains_rooms he)
    refine ⟨e.scope, ?_, hc.mem_eventsAfter_none.2 ⟨he, rfl⟩⟩
    refine List.mem_flatMap.2 ⟨e.scope.room, ?_, hc.mem_scopes he⟩
    exact Table.mem_keys.2 ⟨log, hc.housed he ▸ hlog⟩

theorem Sound.lengthOf_allScopes (hc : c.Sound) : c.lengthOf c.allScopes = c.size := by
  rw [hc.lengthOf_eq, hc.perm_allScopes.length_eq, Table.values, List.length_map]
  rfl

/-! ## All queries of a scope -/

structure Ranged (c : Chronicle) (s : Scope) : Prop where
  filtered : ∀ cursor, c.eventsAfter s cursor =
    c.sift s fun e => cursor.all (·.isBefore e.position)
  whole : ∀ e, e ∈ c.eventsAfter s none ↔ c.get? e.message.id = some e ∧ e.scope = s
  here : ∀ p e, e ∈ c.eventsAfter s (some (.here p)) ↔
    c.get? e.message.id = some e ∧ e.scope = s ∧ (p.sequence < e.message.sequence ∨
      p.sequence = e.message.sequence ∧ p.arrival < e.position.arrival)
  past : ∀ q e, e ∈ c.eventsAfter s (some (.past q)) ↔
    c.get? e.message.id = some e ∧ e.scope = s ∧ q < e.message.sequence
  ordered : ∀ cursor, (c.eventsAfter s cursor).Pairwise Indexed.Precedes
  once : ∀ cursor, (c.eventsAfter s cursor).Nodup
  arrival : ∀ q arrival, c.nextArrival ≤ arrival →
    c.eventsAfter s (some (.here ⟨q, arrival⟩)) = c.eventsAfter s (some (.past q)) ∧
      c.floor s q = (c.sift s fun e => !decide (before ⟨q, arrival⟩ e.position)).getLast?
  latest : c.latest s = (c.sift s fun _ => true).getLast?
  empty : c.latest s = none ↔ ∀ id e, c.get? id = some e → e.scope ≠ s
  floor : ∀ q, c.floor s q = (c.sift s fun e => decide (e.message.sequence ≤ q)).getLast?
  floorless : ∀ q, c.floor s q = none ↔
    ∀ id e, c.get? id = some e → e.scope = s → q < e.message.sequence
  split : ∀ q, c.eventsAfter s none =
    c.upTo s (c.floor s q) ++ c.eventsAfter s (some (.past q))
  gap : ∀ q, c.hasGapAfter s (some q) = true ↔ ∃ g, c.lastGap s = some g ∧ q < g
  anyGap : c.hasGapAfter s none = (c.lastGap s).isSome
  length : c.scopeLength s = (c.sift s fun _ => true).length

theorem Sound.ranged (hc : c.Sound) (s : Scope) : c.Ranged s where
  filtered := hc.eventsAfter_eq_sift s
  whole e := hc.mem_eventsAfter_none
  here p e := by
    rw [hc.mem_eventsAfter]
    refine and_congr_right fun he => and_congr_right fun _ => ?_
    rw [Option.all_some, Cursor.isBefore, decide_eq_true_eq, ← hc.numbered he]
    exact pairBefore_iff _ _
  past q e := by
    rw [hc.mem_eventsAfter]
    refine and_congr_right fun he => and_congr_right fun _ => ?_
    rw [Option.all_some, Cursor.isBefore, decide_eq_true_eq, hc.numbered he]
  ordered cursor := by
    rw [hc.eventsAfter_eq_filter]
    exact (hc.ordered_eventsAfter s).filter _
  once := hc.nodup_eventsAfter s
  arrival q arrival ha := by
    constructor
    · rw [hc.eventsAfter_eq_sift, hc.eventsAfter_eq_sift]
      apply hc.sift_congr
      intro e he _
      simp only [Option.all_some, Cursor.isBefore, hc.before_arrival_iff ha he, hc.numbered he]
    · rw [hc.floor_eq_sift]
      congr 1
      apply hc.sift_congr
      intro e he _
      rw [← decide_not, decide_eq_decide, hc.before_arrival_iff ha he, Nat.not_lt]
  latest := hc.latest_eq_sift s
  empty := by
    rw [hc.latest_eq_sift, List.getLast?_eq_none_iff, hc.sift_eq_nil_iff]
    simp only [Bool.true_eq_false, imp_false, ne_eq]
  floor := hc.floor_eq_sift s
  floorless _ := hc.floor_eq_none_iff
  split := hc.split_at_floor s
  gap := c.hasGapAfter_iff_lastGap s
  anyGap := c.hasGapAfter_none_eq s
  length := by rw [hc.scopeLength_eq_length, hc.eventsAfter_none_eq_sift]

/-- Whatever is done to a chronicle that held nothing at first, the range queries of every scope,
whether it has messages or not, answer what a plain filter over all indexed messages finds; and
the scopes that there are hold every message once. -/
theorem ranges_found_by_filtering (judge : Judge) (as : List Amendment) :
    let c := (empty judge).amendAll as
    (∀ s, c.Ranged s) ∧ (∀ s, s ∈ c.allScopes ↔ (c.strand? s).isSome = true) ∧
      c.allScopes.Nodup ∧ c.lengthOf c.allScopes = c.size := by
  intro c
  have hc : c.Sound := amendAll_keeps (sound_empty judge) fun a _ _ h => h.amend a
  exact ⟨hc.ranged, fun _ => mem_allScopes, c.nodup_allScopes, hc.lengthOf_allScopes⟩

example :
    let room : RoomId := ⟨"!r"⟩
    let s : Scope := .ofRoom room
    let c := (empty ⟨⟨"@a"⟩, true, true⟩).amendAll [
      .append ⟨⟨"$1"⟩, room, ⟨"@b"⟩, 5, .plain, false⟩,
      .append ⟨⟨"$2"⟩, room, ⟨"@b"⟩, 5, .plain, false⟩]
    (c.eventsAfter s (some (.here ⟨5, 0⟩))).map (·.message.id) = [⟨"$2"⟩] ∧
      c.eventsAfter s (some (.past 5)) = [] := by
  decide +kernel

end Chronicle

end ReadTracking
