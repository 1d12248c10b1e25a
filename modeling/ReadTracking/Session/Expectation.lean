import ReadTracking.Session.State

/-!
# Expectations

What a user can expect to see of a room, and when a session meets it.
-/

set_option autoImplicit false

namespace ReadTracking.Session

variable {σ : Type} [Backing σ]

inductive Expectation where
  | read
  | unread (count : Nat)
  | unreadBelow (count : Nat)
  | unreadAbove (count : Nat)
  | threadRead (body : String)
  | threadUnread (body : String)
  deriving DecidableEq, Repr, Inhabited

def stateMeets (r : RoomState) (root : Option EventId) : Expectation → Bool
  | .read => !r.isUnread
  | .unread count => r.isUnread && r.unread == count
  | .unreadBelow count => r.isUnread && decide (r.unread < count)
  | .unreadAbove count => r.isUnread && decide (count < r.unread)
  | .threadRead _ => (root.bind r.thread?).any fun t => !t.hasUnread
  | .threadUnread _ => (root.bind r.thread?).any fun t => t.hasUnread

def Expectation.body? : Expectation → Option String
  | .threadRead body | .threadUnread body => some body
  | _ => none

def meets (s : Session σ) (name : String) (e : Expectation) : Bool :=
  match s.roomOf name with
  | .error _ => false
  | .ok room =>
    let root := e.body?.bind fun body => (s.find room body).toOption
    stateMeets (s.tracker.roomState room) root e

end ReadTracking.Session
