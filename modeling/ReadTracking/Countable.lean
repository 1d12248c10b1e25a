import ReadTracking.Message
import ReadTracking.Policy

/-!
# Which messages count

Every message is judged once, when it is first indexed, by its content and its sender.
-/

set_option autoImplicit false

namespace ReadTracking

inductive Category where
  | message
  | edit
  | reaction
  | threadReply
  | other
  deriving DecidableEq, Repr, Inhabited

def Category.word : Category → String
  | .message => "Message"
  | .edit => "Edit"
  | .reaction => "Reaction"
  | .threadReply => "ThreadReply"
  | .other => "Other"

structure Verdict where
  category : Category
  countable : Bool
  deriving DecidableEq, Repr, Inhabited

structure Judge where
  reader : UserId
  countEdits : Bool
  countNotifyingState : Bool
  deriving DecidableEq, Repr, Inhabited

namespace Judge

def of (reader : UserId) (policy : Policy) : Judge :=
  ⟨reader, policy.countEdits, policy.countNotifyingState⟩

def category : Content → Category
  | .plain | .reply _ => .message
  | .threadReply _ => .threadReply
  | .edit _ => .edit
  | .reaction _ _ => .reaction
  | .state _ | .other => .other

def counts (j : Judge) : Content → Bool
  | .plain | .reply _ | .threadReply _ => true
  | .edit _ => j.countEdits
  | .reaction _ _ => false
  | .state notify => notify && j.countNotifyingState
  | .other => false

def verdict (j : Judge) (m : Message) : Verdict :=
  ⟨category m.content, j.counts m.content && m.sender != j.reader⟩

end Judge

end ReadTracking
