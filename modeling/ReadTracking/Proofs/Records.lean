import Mathlib.Data.List.Nodup
import ReadTracking.Fields

/-!
# Records in any order

What is read from a record does not depend on the order of its fields, nor on fields that the
reader does not ask for.  A field may be left out where the reader knows what it would have held.
-/

set_option autoImplicit false

namespace ReadTracking.Fields

variable {α : Type} {fs gs standard : Fields α} {names : List String} {name : String}

theorem all_append (fs gs : Fields α) (name : String) :
    Fields.all (fs ++ gs) name = fs.all name ++ gs.all name := by
  simp only [all, List.filter_append, List.map_append]

theorem mem_all {v : α} : v ∈ fs.all name ↔ (name, v) ∈ fs := by
  simp [all]

theorem all_filter (h : name ∈ names) :
    Fields.all (fs.filter fun f => names.contains f.1) name = fs.all name := by
  have hsame : ∀ f ∈ fs, ((f.1 == name) && names.contains f.1) = (f.1 == name) := by
    intro f hf
    cases hname : f.1 == name with
    | false => rfl
    | true =>
      rw [beq_iff_eq.1 hname, Bool.true_and, List.contains_iff_mem]
      exact h
  rw [all, all, List.filter_filter, List.filter_congr hsame]

theorem length_all_le_one (h : (fs.map (·.1)).Nodup) (name : String) :
    (fs.all name).length ≤ 1 := by
  have hcount : (fs.map (·.1)).count name ≤ 1 := List.nodup_iff_count_le_one.1 h name
  rw [List.count, List.countP_map, List.countP_eq_length_filter] at hcount
  rw [all, List.length_map]
  exact hcount

theorem all_perm (h : fs.Perm gs) (name : String) : (fs.all name).Perm (gs.all name) :=
  (h.filter _).map _

theorem all_eq_of_perm (h : fs.Perm gs) (hnodup : (gs.map (·.1)).Nodup) (name : String) :
    fs.all name = gs.all name := by
  have hperm := all_perm h name
  have hlength := length_all_le_one hnodup name
  match hall : gs.all name with
  | [] =>
    rw [hall] at hperm
    exact hperm.eq_nil
  | [v] =>
    rw [hall] at hperm
    exact List.perm_singleton.1 hperm
  | _ :: _ :: _ =>
    rw [hall] at hlength
    simp only [List.length_cons] at hlength
    omega

def Rearranged (names : List String) (standard fs gs : Fields α) : Prop :=
  ∃ missing : Fields α, (∀ f ∈ missing, f ∈ standard) ∧
    ((fs.filter fun f => names.contains f.1) ++ missing).Perm gs

theorem rearranged_self (hnames : gs.map (·.1) = names) : Rearranged names standard gs gs := by
  refine ⟨[], List.forall_mem_nil _, ?_⟩
  have hall : ∀ f ∈ gs, names.contains f.1 = true := by
    intro f hf
    rw [← hnames, List.contains_iff_mem]
    exact List.mem_map_of_mem hf
  rw [List.append_nil, List.filter_eq_self.2 hall]

theorem all_of_mem {v : α} (hnodup : (fs.map (·.1)).Nodup) (h : (name, v) ∈ fs) :
    fs.all name = [v] := by
  have hmem : v ∈ fs.all name := mem_all.2 h
  have hlength := length_all_le_one hnodup name
  match hall : fs.all name with
  | [] =>
    rw [hall] at hmem
    cases hmem
  | [w] =>
    rw [hall, List.mem_singleton] at hmem
    rw [hmem]
  | _ :: _ :: _ =>
    rw [hall] at hlength
    simp only [List.length_cons] at hlength
    omega

/-- A field that the reader asks for is there as it was written, or it is missing and was a
standard one. -/
theorem Rearranged.field {v : α} (h : Rearranged names standard fs gs)
    (hnodup : (gs.map (·.1)).Nodup) (hname : name ∈ names) (hv : (name, v) ∈ gs) :
    fs.all name = [v] ∨ fs.all name = [] ∧ (name, v) ∈ standard := by
  obtain ⟨missing, hmissing, hperm⟩ := h
  have hall := all_eq_of_perm hperm hnodup name
  rw [all_append, all_filter hname, all_of_mem hnodup hv] at hall
  match hleft : missing.all name with
  | [] =>
    rw [hleft, List.append_nil] at hall
    exact .inl hall
  | w :: ws =>
    rw [hleft] at hall
    have hlength := congrArg List.length hall
    simp only [List.length_append, List.length_cons, List.length_nil] at hlength
    have hnone : fs.all name = [] := List.eq_nil_of_length_eq_zero (by omega)
    rw [hnone, List.nil_append, List.cons.injEq] at hall
    have hmem : w ∈ missing.all name := by
      rw [hleft]
      exact List.mem_cons_self
    rw [hall.1] at hmem
    exact .inr ⟨hnone, hmissing _ (mem_all.1 hmem)⟩

theorem Rearranged.all_of_mem {v : α} (h : Rearranged names [] fs gs)
    (hnodup : (gs.map (·.1)).Nodup) (hname : name ∈ names) (hv : (name, v) ∈ gs) :
    fs.all name = [v] := by
  rcases h.field hnodup hname hv with hall | ⟨-, hstandard⟩
  · exact hall
  · cases hstandard

end ReadTracking.Fields
