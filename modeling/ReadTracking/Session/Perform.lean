import ReadTracking.Session.Play

/-!
# Moves that want a date

The tracker stamps the markers that it moves.  A move in which it does so while the wall clock
shows no date halts the session at that moment, and so before anything is audited.
-/

set_option autoImplicit false

namespace ReadTracking.Session

variable {σ : Type} [Backing σ]

def readsDate (s : Session σ) (m : Move) : Bool :=
  match ({ s with checks := [], dated := false } : Session σ).play m with
  | .ok (after, _) => after.dated
  | .error _ => false

def perform (s : Session σ) (m : Move) : Except Halt (Session σ × Except Refusal Unit) :=
  if !s.tracker.ambient.hasDate && s.readsDate m then .error .undated else s.play m

theorem perform_of_hasDate {s : Session σ} (h : s.tracker.ambient.hasDate = true) (m : Move) :
    s.perform m = s.play m := by
  simp [perform, h]

end ReadTracking.Session
