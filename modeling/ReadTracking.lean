import ReadTracking.Ambient
import ReadTracking.Audit
import ReadTracking.Backing
import ReadTracking.Backing.ByteTable
import ReadTracking.Backing.Depot
import ReadTracking.Backing.Faulty
import ReadTracking.Backing.Rationed
import ReadTracking.Backing.Shelf
import ReadTracking.Bytes.BigEndian
import ReadTracking.Bytes.Hex
import ReadTracking.Bytes.SlotKey
import ReadTracking.Bytes.Utf8
import ReadTracking.Cbor.Item
import ReadTracking.Cbor.Marker
import ReadTracking.Chronicle
import ReadTracking.Countable
import ReadTracking.Fields
import ReadTracking.Json.Form
import ReadTracking.Json.Reader
import ReadTracking.Json.Value
import ReadTracking.KeyOrder
import ReadTracking.Keystream
import ReadTracking.Listeners
import ReadTracking.Marker
import ReadTracking.MarkerBook
import ReadTracking.Message
import ReadTracking.Policy
import ReadTracking.Proofs.Agreement
import ReadTracking.Proofs.Amendments
import ReadTracking.Proofs.Aside
import ReadTracking.Proofs.AtOnce
import ReadTracking.Proofs.Audits
import ReadTracking.Proofs.Batches
import ReadTracking.Proofs.ByteTables
import ReadTracking.Proofs.Capacity
import ReadTracking.Proofs.CatchingUp
import ReadTracking.Proofs.Chronicles
import ReadTracking.Proofs.Clearing
import ReadTracking.Proofs.Conduct
import ReadTracking.Proofs.Counts
import ReadTracking.Proofs.Course
import ReadTracking.Proofs.Deliveries
import ReadTracking.Proofs.Delivery
import ReadTracking.Proofs.Echoes
import ReadTracking.Proofs.Encoding
import ReadTracking.Proofs.Expecting
import ReadTracking.Proofs.Fetching
import ReadTracking.Proofs.Filling
import ReadTracking.Proofs.Flushing
import ReadTracking.Proofs.Following
import ReadTracking.Proofs.Forgetting
import ReadTracking.Proofs.Forward
import ReadTracking.Proofs.HalfForgotten
import ReadTracking.Proofs.HalfSent
import ReadTracking.Proofs.Hearing
import ReadTracking.Proofs.Holding
import ReadTracking.Proofs.Honouring
import ReadTracking.Proofs.Indexing
import ReadTracking.Proofs.Intake
import ReadTracking.Proofs.Joining
import ReadTracking.Proofs.JsonForms
import ReadTracking.Proofs.JsonText
import ReadTracking.Proofs.Jumping
import ReadTracking.Proofs.Ledger
import ReadTracking.Proofs.Linked
import ReadTracking.Proofs.LiveEdge
import ReadTracking.Proofs.LoadingFirst
import ReadTracking.Proofs.Lockstep
import ReadTracking.Proofs.Looking
import ReadTracking.Proofs.MarkingRead
import ReadTracking.Proofs.Marks
import ReadTracking.Proofs.Navigating
import ReadTracking.Proofs.Persistence
import ReadTracking.Proofs.Posting
import ReadTracking.Proofs.Progress
import ReadTracking.Proofs.Queueing
import ReadTracking.Proofs.Ranges
import ReadTracking.Proofs.Reading
import ReadTracking.Proofs.Records
import ReadTracking.Proofs.Recovering
import ReadTracking.Proofs.Relations
import ReadTracking.Proofs.Repeating
import ReadTracking.Proofs.Replay
import ReadTracking.Proofs.Requests
import ReadTracking.Proofs.Restarting
import ReadTracking.Proofs.RoomReceipts
import ReadTracking.Proofs.RoomRuns
import ReadTracking.Proofs.Rooms
import ReadTracking.Proofs.Scanning
import ReadTracking.Proofs.Schedules
import ReadTracking.Proofs.Sending
import ReadTracking.Proofs.Serving
import ReadTracking.Proofs.Skipping
import ReadTracking.Proofs.SlotKeys
import ReadTracking.Proofs.SpoiltRows
import ReadTracking.Proofs.StorageAudit
import ReadTracking.Proofs.StorageLaws
import ReadTracking.Proofs.Stored
import ReadTracking.Proofs.Straying
import ReadTracking.Proofs.Tables
import ReadTracking.Proofs.Timeless
import ReadTracking.Proofs.Timelines
import ReadTracking.Proofs.Turns
import ReadTracking.Proofs.Upright
import ReadTracking.Proofs.Waiting
import ReadTracking.Proofs.Wishes
import ReadTracking.Proofs.Worlds
import ReadTracking.Proofs.WriteThrough
import ReadTracking.Rate
import ReadTracking.Reference.Gesture
import ReadTracking.Reference.World
import ReadTracking.Scope
import ReadTracking.SendQueue
import ReadTracking.Server
import ReadTracking.Session.Expectation
import ReadTracking.Session.Move
import ReadTracking.Session.Perform
import ReadTracking.Session.Play
import ReadTracking.Session.State
import ReadTracking.Strand
import ReadTracking.Sum64
import ReadTracking.Table
import ReadTracking.Tally
import ReadTracking.Text.Quoted
import ReadTracking.Text.Visible
import ReadTracking.Tracker.Command
import ReadTracking.Tracker.Dated
import ReadTracking.Tracker.Run
import ReadTracking.Tracker.State
import ReadTracking.Tracker.Turn
