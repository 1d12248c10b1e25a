import Mathlib.Data.List.Nodup
import ReadTracking.Proofs.Chronicles
import ReadTracking.Tally

/-!
# What counts does not depend on when it came

A marker covers everything that shares its sequence, so the order of arrival among messages
decides nothing that is counted.  Two chronicles that hold the same messages in the same scopes,
with the same gaps, count alike for books that read equally far.
-/

set_option autoImplicit false

namespace ReadTracking

structure Indexed.Like (e e' : Indexed) : Prop where
  message : e'.message = e.message
  scope : e'.scope = e.scope
  sequence : e'.position.sequence = e.position.sequence
  verdict : e'.verdict = e.verdict

namespace Chronicle

def Holds (c' c : Chronicle) : Prop :=
  ∀ id e, c.get? id = some e → ∃ e', c'.get? id = some e' ∧ e.Like e'

variable {c c' : Chronicle}

theorem mem_after_of_holds (hc : c.Sound) (hc' : c'.Sound) (h : c'.Holds c) {s : Scope}
    {mark : Option Nat} {p : Indexed → Bool} (hp : ∀ e e', e.Like e' → p e = p e') {id : EventId}
    (hid : id ∈ ((c.strand s).after (mark.map .past)).filter
      fun id => ((c.get? id).map p).getD false) :
    id ∈ ((c'.strand s).after (mark.map .past)).filter
      fun id => ((c'.get? id).map p).getD false := by
  obtain ⟨hafter, hcount⟩ := List.mem_filter.1 hid
  obtain ⟨e, he, hs, hcut⟩ := hc.mem_after.1 hafter
  obtain ⟨e', he', hlike⟩ := h id e he
  refine List.mem_filter.2 ⟨hc'.mem_after.2 ⟨e', he', hlike.scope.trans hs, ?_⟩, ?_⟩
  · cases mark with
    | none => rfl
    | some q =>
      simp only [Option.map_some, Option.all_some, Cursor.isBefore, hlike.sequence] at hcut ⊢
      exact hcut
  · simp only [he, Option.map_some, Option.getD_some] at hcount
    simp only [he', Option.map_some, Option.getD_some, ← hp e e' hlike, hcount]

/-- As many messages behind a sequence pass a test that does not look at arrivals. -/
theorem length_eventsAfter (hc : c.Sound) (hc' : c'.Sound) (h : c'.Holds c) (h' : c.Holds c')
    (s : Scope) (mark : Option Nat) {p : Indexed → Bool} (hp : ∀ e e', e.Like e' → p e = p e') :
    ((c'.eventsAfter s (mark.map .past)).filter p).length =
      ((c.eventsAfter s (mark.map .past)).filter p).length := by
  rw [eventsAfter_eq, eventsAfter_eq, ← List.countP_eq_length_filter,
    ← List.countP_eq_length_filter, List.countP_filterMap, List.countP_filterMap,
    List.countP_eq_length_filter, List.countP_eq_length_filter]
  refine List.Perm.length_eq ((List.perm_ext_iff_of_nodup ((hc'.nodup_after _ _).filter _)
    ((hc.nodup_after _ _).filter _)).2 fun id => ?_)
  exact ⟨mem_after_of_holds hc' hc h' hp, mem_after_of_holds hc hc' h hp⟩

section

variable {σ τ : Type} {b : MarkerBook σ} {b' : MarkerBook τ}

theorem countScope_timeless (hc : c.Sound) (hc' : c'.Sound) (h : c'.Holds c) (h' : c.Holds c')
    {s : Scope} (hgaps : (c'.strand s).gaps = (c.strand s).gaps)
    (hread : b'.readTo s = b.readTo s) : countScope c' b' s = countScope c b s := by
  have hcountable : ∀ e e' : Indexed, e.Like e' → e.countable = e'.countable := by
    intro e e' hlike
    simp only [Indexed.countable, hlike.verdict]
  have hhighlight : ∀ e e' : Indexed, e.Like e' →
      (e.highlight && e.countable) = (e'.highlight && e'.countable) := by
    intro e e' hlike
    simp only [Indexed.highlight, hcountable e e' hlike, hlike.message]
  have hgap : c'.hasGapAfter s (b.readTo s) = c.hasGapAfter s (b.readTo s) := by
    rw [hasGapAfter_eq, hasGapAfter_eq]
    cases b.readTo s <;> simp only [Strand.hasGapAfter, hgaps]
  have hpending := length_eventsAfter hc hc' h h' s (b.readTo s) hcountable
  have hhighlights := length_eventsAfter hc hc' h h' s (b.readTo s) hhighlight
  simp only [countScope, hread, hgap, hpending, List.filter_filter, hhighlights]

theorem rootKnown_of_holds (h : c'.Holds c) {room : RoomId} {root : EventId}
    (hk : c.rootKnown room root = true) : c'.rootKnown room root = true := by
  unfold rootKnown at hk ⊢
  cases he : c.get? root with
  | none => simp only [he, Bool.false_eq_true] at hk
  | some e =>
    obtain ⟨e', he', hlike⟩ := h root e he
    rw [he] at hk
    simpa only [he', hlike.message] using hk

theorem hasThread_of_holds (hc : c.Sound) (hc' : c'.Sound) (h : c'.Holds c) {room : RoomId}
    {root : EventId} (ht : c.hasThread room root = true) : c'.hasThread room root = true := by
  obtain ⟨id, e, he, hs⟩ := hc.hasThread_iff.1 ht
  obtain ⟨e', he', hlike⟩ := h id e he
  exact hc'.hasThread_iff.2 ⟨id, e', he', hlike.scope.trans hs⟩

theorem threadState_timeless (hc : c.Sound) (hc' : c'.Sound) (h : c'.Holds c) (h' : c.Holds c')
    {room : RoomId} {root : EventId}
    (hgaps : (c'.strand (.ofThread room root)).gaps = (c.strand (.ofThread room root)).gaps)
    (hread : b'.readTo (.ofThread room root) = b.readTo (.ofThread room root)) :
    threadState c' b' room root = threadState c b room root := by
  have hknown : c'.rootKnown room root = c.rootKnown room root :=
    Bool.eq_iff_iff.2 ⟨rootKnown_of_holds h', rootKnown_of_holds h⟩
  have hthread : c'.hasThread room root = c.hasThread room root :=
    Bool.eq_iff_iff.2 ⟨hasThread_of_holds hc' hc h', hasThread_of_holds hc hc' h⟩
  simp only [threadState, hknown, hthread, countScope_timeless hc hc' h h' hgaps hread]

end

end Chronicle

end ReadTracking
