import ReadTracking.Server
import ReadTracking.Tracker.State

/-!
# Moves

A move is one step of a session as a value: the local user, the bot or another member does
something, or the surroundings change.  Rooms go by the names under which they were created and
messages by their texts.
-/

set_option autoImplicit false

namespace ReadTracking

inductive Move where
  | createRoom (name : String)
  | enter (name : String)
  | leave
  | openThread (body : String)
  | closeThread
  | markRead (name : String)
  | jump (name body : String) (includeThreads : Bool)
  | hold (on : Bool)
  | answerHeld
  | botSends (name : String) (drafts : List Draft)
  | botMentions (name : String) (drafts : List Draft)
  | botSendsUnseen (name : String) (drafts : List Draft)
  | botSendsAfterGap (name : String) (drafts : List Draft)
  | userSends (name : String) (drafts : List Draft)
  | catchUp (name : String)
  | readElsewhere (name body : String) (reach : Reach)
  | memberReads (name body : String)
  | refuseReceipts (on : Bool)
  | restart
  | forgetRoom (name : String)
  | wait (millis : Nat)
  deriving DecidableEq, Repr, Inhabited

end ReadTracking
