import ReadTracking.Tracker.Command

/-!
# Runs of commands

A run carries out commands one after the other and keeps, in order, all actions that they ask
for and all notices that they deliver.  A command that is refused asks for nothing, and the run
goes on.
-/

set_option autoImplicit false

namespace ReadTracking

structure Trace (σ : Type) where
  tracker : Tracker σ
  actions : List Action := []
  notices : List Notice := []

def Answer.actions {σ : Type} (a : Answer σ) : List Action := a.reply.toOption.getD []

namespace Trace

variable {σ : Type}

def follow (r : Trace σ) (a : Answer σ) : Trace σ :=
  ⟨a.tracker, r.actions ++ a.actions, r.notices ++ a.notices⟩

def step [Backing σ] (r : Trace σ) (c : Command) : Trace σ := r.follow (r.tracker.handle c)

end Trace

def Tracker.run {σ : Type} [Backing σ] (t : Tracker σ) (cs : List Command) : Trace σ :=
  cs.foldl Trace.step { tracker := t }

end ReadTracking
