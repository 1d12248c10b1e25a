import ReadTracking.Audit
import ReadTracking.Server

/-!
# Sessions

A session holds one tracker for one user, and the server it plays against.  It knows rooms and
messages by what the user sees, carries out the actions of the tracker at once, and audits the
tracker after every move.  A move that makes no sense, or that breaks an audited relation, halts
the session.
-/

set_option autoImplicit false

namespace ReadTracking

inductive Halt where
  | noRoom (name : String)
  | server (why : ServerFault)
  | noOpenRoom
  | threadRefused (body : String) (why : Refusal)
  | forgetRefused (why : Refusal)
  | syncRefused (why : Refusal)
  | moveRefused (move : String) (why : Refusal)
  | violated (context : String) (violations : List Violation)
  | undated
  deriving DecidableEq, Repr, Inhabited

def Halt.message : Halt → String
  | .noRoom name => "no room named " ++ name
  | .server why => why.message
  | .noOpenRoom => "open a room before a thread"
  | .threadRefused body why => "cannot open thread " ++ body ++ ": " ++ why.message
  | .forgetRefused why => why.message
  | .syncRefused why => "sync produced an engine error: " ++ why.message
  | .moveRefused move why => move ++ " produced an engine error: " ++ why.message
  | .violated context violations => Violation.report context violations
  | .undated => Sum64.overflow

structure Fetch where
  request : Nat
  room : RoomId
  event : EventId
  deriving DecidableEq, Repr, Inhabited

structure Session (σ : Type) where
  server : Server := {}
  tracker : Tracker σ
  rooms : Table String RoomId := .empty
  current : Option RoomId := none
  delivered : Table EventId Unit := .empty
  gaps : Table RoomId (List Nat) := .empty
  holding : Bool := false
  waiting : Option Fetch := none
  history : Table Scope (List Nat) := .empty
  checks : List Check := Check.standard
  failedSends : Nat := 0
  unsaved : Nat := 0
  moves : Nat := 0
  dated : Bool := false
  deriving Inhabited

namespace Session

variable {σ : Type} [Backing σ]

def me : UserId := ⟨"@me:sim"⟩

def bot : UserId := ⟨"@bot:sim"⟩

def alice : UserId := ⟨"@alice:sim"⟩

def radius : Nat := 10

def openOver (ambient : Ambient) (policy : Policy) (storage : σ) :
    Except Refusal (Session σ) × σ :=
  match Tracker.openOver ambient policy me storage with
  | (.ok tracker, s) => (.ok { tracker }, s)
  | (.error why, s) => (.error why, s)

/-! ## Names -/

def roomOf (s : Session σ) (name : String) : Except Halt RoomId :=
  match s.rooms.get? name with
  | some room => .ok room
  | none => .error (.noRoom name)

def find (s : Session σ) (room : RoomId) (body : String) : Except Halt EventId :=
  (s.server.resolve room body).mapError .server

def eventOf (s : Session σ) (name body : String) : Except Halt EventId := do
  let room ← s.roomOf name
  s.find room body

def joined (s : Session σ) : List RoomId := (Table.ofList (s.rooms.values.map (·, ()))).keys

/-! ## Carrying out actions -/

def after (s : Session σ) (a : Answer σ) : Session σ × Except Refusal (List Action) :=
  ({ s with tracker := a.tracker, dated := s.dated || a.dated }, a.reply)

def deliverReceipt (s : Session σ) (scope : Scope) (event : EventId) (v : Visibility) :
    Session σ :=
  let (server, answer) := s.server.takeReceipt me ⟨scope, v⟩ event
  match answer with
  | .ok () => { s with server }
  | .error why =>
    let a := s.tracker.sendFailed scope event why.message
    { s with server, tracker := a.tracker, failedSends := s.failedSends + 1 }

def carry (fetch : Fetch → Session σ → Session σ × Except Refusal Unit) :
    List Action → Session σ → Session σ × Except Refusal Unit
  | [], s => (s, .ok ())
  | .send scope event v :: rest, s => carry fetch rest (s.deliverReceipt scope event v)
  | .unsaved _ _ _ :: rest, s => carry fetch rest { s with unsaved := s.unsaved + 1 }
  | .fetch request room event :: rest, s =>
    let (s, here) := fetch ⟨request, room, event⟩ s
    let (s, later) := carry fetch rest s
    (s, match later with
      | .ok () => here
      | .error why => .error why)

def keep (f : Fetch) (s : Session σ) : Session σ × Except Refusal Unit :=
  ({ s with waiting := some f }, .ok ())

def answer (f : Fetch) (s : Session σ) : Session σ × Except Refusal Unit :=
  let events := s.server.around f.room f.event radius
  let s := { s with delivered := s.delivered.insertAll (events.map fun m : Message => (m.id, ())) }
  match s.after (s.tracker.supply f.request events) with
  | (s, .ok actions) => carry keep actions s
  | (s, .error why) => (s, .error why)

def fetchNow (f : Fetch) (s : Session σ) : Session σ × Except Refusal Unit :=
  if s.holding then keep f s else answer f s

def execute (s : Session σ) (actions : List Action) : Session σ × Except Refusal Unit :=
  carry fetchNow actions s

/-! ## Auditing -/

def remember (s : Session σ) : Session σ :=
  let effective := Snapshot.effective (s.tracker.book.marks.mapValues fun _ m => m.sequence)
  let history := effective.entries.foldl
    (fun h p => h.insert p.1 ((h.get? p.1).getD [] ++ [p.2])) s.history
  { s with history }

def snapshot (s : Session σ) : Session σ × Option Snapshot :=
  match Snapshot.take s.tracker s.joined with
  | (tracker, .ok snap) => ({ s with tracker }, some { snap with history := s.history })
  | (tracker, .error _) => ({ s with tracker }, none)

def observe (s : Session σ) (move : String) : Except Halt (Session σ) :=
  let s := ({ s with moves := s.moves + 1 } : Session σ).remember
  match s.snapshot with
  | (s, none) => .ok s
  | (s, some snap) =>
    match Check.runAll s.checks snap with
    | [] => .ok s
    | vs =>
      .error (.violated ("after step " ++ toString s.moves ++ " (" ++ move ++ ")") vs)

def settle (s : Session σ) (actions : List Action) (move : String) :
    Except Halt (Session σ) :=
  match s.execute actions with
  | (s, .ok ()) => s.observe move
  | (_, .error why) => .error (.moveRefused move why)

def settleAnswer (s : Session σ) (a : Answer σ) (move : String) : Except Halt (Session σ) :=
  match s.after a with
  | (s, .ok actions) => s.settle actions move
  | (_, .error why) => .error (.moveRefused move why)

def deliver (s : Session σ) (room : RoomId) (events : List Message) (limited : Bool) :
    Except Halt (Session σ) :=
  let s := { s with delivered := s.delivered.insertAll (events.map fun m : Message => (m.id, ())) }
  let s := match limited, (events.map (·.sequence)).min? with
    | true, some first =>
      { s with gaps := s.gaps.insert room ((s.gaps.get? room).getD [] ++ [first]) }
    | _, _ => s
  match s.after (s.tracker.receive room events limited) with
  | (s, .ok actions) =>
    match s.execute actions with
    | (s, .ok ()) => .ok s
    | (_, .error why) => .error (.syncRefused why)
  | (_, .error why) => .error (.syncRefused why)

def post (s : Session σ) (room : RoomId) (sender : UserId) (drafts : List Draft) :
    Except Halt (Session σ × List Message) :=
  match s.server.send room sender drafts with
  | (server, .ok events) => .ok ({ s with server }, events)
  | (_, .error why) => .error (.server why)

end Session

end ReadTracking
