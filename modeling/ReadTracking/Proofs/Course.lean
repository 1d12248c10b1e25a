import ReadTracking.Tracker.Run

/-!
# The course of a tracker's life

Between two commands time passes, other random numbers come up and listeners come and go.  A
moment is a command or one of these changes, and a course is a list of moments.  What holds of a
tracker at first and is kept by every moment of a course holds after it.
-/

set_option autoImplicit false

namespace ReadTracking

inductive Moment where
  | surroundings (ambient : Ambient)
  | subscribe
  | unsubscribe (listener : Nat)
  | command (c : Command)
  deriving DecidableEq, Inhabited

def Answer.StorageFailed {σ : Type} (a : Answer σ) : Prop :=
  ∃ why, a.reply = .error (.storage why)

instance {σ : Type} (a : Answer σ) : Decidable a.StorageFailed :=
  match h : a.reply with
  | .error (.storage why) => isTrue ⟨why, h⟩
  | .error (.unknownThread _ _) | .error (.inThread _ _) | .ok _ =>
    isFalse fun ⟨_, h'⟩ => by simp [h] at h'

namespace Tracker

variable {σ : Type} [Backing σ]

def meet (t : Tracker σ) : Moment → Answer σ
  | .surroundings ambient => ⟨{ t with ambient }, [], .ok [], false⟩
  | .subscribe => ⟨t.subscribe.1, [], .ok [], false⟩
  | .unsubscribe listener => ⟨(t.unsubscribe listener).1, [], .ok [], false⟩
  | .command c => t.handle c

def after : Tracker σ → List Moment → Tracker σ
  | t, [] => t
  | t, m :: ms => (t.meet m).tracker.after ms

def answers : Tracker σ → List Moment → List (Answer σ)
  | _, [] => []
  | t, m :: ms => t.meet m :: (t.meet m).tracker.answers ms

theorem after_append (t : Tracker σ) (ms ms' : List Moment) :
    t.after (ms ++ ms') = (t.after ms).after ms' := by
  induction ms generalizing t with
  | nil => rfl
  | cons m ms ih => exact ih _

theorem eq_fresh_of_openOver {ambient : Ambient} {policy : Policy} {reader : UserId} {s : σ}
    {t : Tracker σ} (ht : (openOver ambient policy reader s).1 = .ok t) :
    ∃ book, t = fresh ambient policy reader book ∧ (MarkerBook.openOver s).1 = .ok book := by
  unfold openOver at ht
  split at ht
  next book _ hbook =>
    cases ht
    exact ⟨book, rfl, congrArg Prod.fst hbook⟩
  next => cases ht

/-- Only a wish to forget a room is refused because the storage failed. -/
theorem forget_of_storageFailed {t : Tracker σ} {m : Moment} (h : (t.meet m).StorageFailed) :
    ∃ room, m = .command (.forget room) := by
  obtain ⟨why, h⟩ := h
  cases m with
  | surroundings => cases h
  | subscribe => cases h
  | unsubscribe => cases h
  | command c =>
    cases c with
    | forget room => exact ⟨room, rfl⟩
    | viewThread room root =>
      simp only [meet, handle, viewThread] at h
      split at h <;> cases h
    | jump room event includeThreads =>
      simp only [meet, handle, jump] at h
      split at h
      · cases h
      · split at h <;> cases h
    | supply request messages =>
      simp only [meet, handle, supply] at h
      split at h
      · cases h
      · split at h
        · split at h <;> cases h
        · cases h
    | receipt room user event v reach =>
      simp only [meet, handle, receipt] at h
      split at h
      · split at h <;> cases h
      · cases h
    | markRoomRead | viewRoom | closeThread | leave | receive | backfill | sendFailed | tick =>
      cases h

theorem not_storageFailed_of_no_forget {t : Tracker σ} {ms : List Moment}
    (hf : ∀ room, .command (.forget room) ∉ ms) : ∀ a ∈ t.answers ms, ¬ a.StorageFailed := by
  induction ms generalizing t with
  | nil =>
    intro a ha
    cases ha
  | cons m ms ih =>
    intro a ha hs
    rcases List.mem_cons.1 ha with rfl | ha
    · obtain ⟨room, rfl⟩ := forget_of_storageFailed hs
      exact hf room List.mem_cons_self
    · exact ih (fun room hm => hf room (List.mem_cons_of_mem _ hm)) a ha hs

theorem after_keeps {P : Tracker σ → Prop} {t : Tracker σ} {ms : List Moment} (h : P t)
    (step : ∀ m ∈ ms, ∀ t, P t → P (t.meet m).tracker) : P (t.after ms) := by
  induction ms generalizing t with
  | nil => exact h
  | cons m ms ih =>
    have hm : P (t.meet m).tracker := step m List.mem_cons_self t h
    exact ih hm fun m' hm' => step m' (List.mem_cons_of_mem _ hm')

end Tracker

end ReadTracking
