import ReadTracking.Tracker.Run

/-!
# Dates

A command that reads the wall clock while it shows no date stops at that reading.  Messages are
indexed before any clock is read, and no marker moves without a date, so what stays of the
command is its chronicle.
-/

set_option autoImplicit false

namespace ReadTracking.Tracker

variable {σ : Type} [Backing σ]

/-- Carry out a command.  If it wants a date and there is none, it leaves the tracker as it stood
at that moment. -/
def perform (t : Tracker σ) (c : Command) : Except (Tracker σ) (Answer σ) :=
  let a := t.handle c
  if a.dated && !t.ambient.hasDate then .error { t with chronicle := a.tracker.chronicle }
  else .ok a

def performAll (t : Tracker σ) (cs : List Command) : Except (Tracker σ) (Trace σ) :=
  cs.foldlM (fun r c => (r.tracker.perform c).map r.follow) { tracker := t }

end ReadTracking.Tracker
