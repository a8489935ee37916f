import ReductStore.Replication.Reload
import ReductStore.Replication.WriteBatch

set_option autoImplicit false

namespace ReductStore

open TransactionLog ReplicationSender

def RemoteBucketState.isAvailable : RemoteBucketState → Bool
  | .available _ => true
  | .unavailable _ => false

/-- The state of a `RemoteBucketImpl`. Points in time are milliseconds. -/
inductive BucketState where
  | initial
  | available (lastResult : Except ReductError ErrorRecordMap)
  | unavailable (initTime : Nat) (lastResult : Except ReductError ErrorRecordMap)

/-- What the remote says to `get_or_create_bucket`, to the update and to the write of a batch. -/
structure RemoteReplies where
  bucket : Except ReductError Unit
  update : Except ReductError ErrorRecordMap
  write : WriteRequest → Except ReductError ErrorRecordMap

namespace BucketState

def isAvailable : BucketState → Bool
  | .available _ => true
  | _ => false

def lastResult : BucketState → Except ReductError ErrorRecordMap
  | .initial => .ok ∅
  | .available result | .unavailable _ result => result

def timeout : Nat := 5000

section Calls

variable (now : Nat) (records : List (SourceRecord × Transaction)) (replies : RemoteReplies)

def reply : Option RemoteBucketState := BucketAvailableState.writeBatch records replies.update replies.write

def send : Option BucketState :=
  (reply records replies).map fun state =>
    match state with
    | .available result => .available result
    | .unavailable failure => .unavailable now (.error failure)

def connect : Option BucketState :=
  match replies.bucket with
  | .ok _ => send now records replies
  | .error failure => some (.unavailable now (.error failure))

/-- `write_batch` of the three states; none if it panics. -/
def writeBatch : BucketState → Option BucketState
  | .initial => connect now records replies
  | .available _ => send now records replies
  | .unavailable initTime _ =>
    if now - initTime > timeout then connect now records replies
    -- nothing is sent, and no error is reported
    else some (.unavailable initTime (.ok ∅))

def probe : BucketState → BucketState
  | .available result => .available result
  | _ =>
    match replies.bucket with
    | .ok _ => .available (.ok ∅)
    | .error failure => .unavailable now (.error failure)

def reaches : BucketState → Bool
  | .available _ => true
  | .initial => replies.bucket.isOk
  | .unavailable initTime _ => now - initTime > timeout && replies.bucket.isOk

/-- The batch is sent in this call, and not answered with a failure of the network. -/
def answers (state : BucketState) : Bool :=
  state.reaches now replies && (reply records replies).any RemoteBucketState.isAvailable

variable {now records replies}

theorem isAvailable_send {next : BucketState} (sent : send now records replies = some next) :
    next.isAvailable = (reply records replies).any RemoteBucketState.isAvailable := by
  obtain ⟨answer, found, rfl⟩ := Option.map_eq_some_iff.mp sent
  rw [found]
  cases answer <;> rfl

theorem isAvailable_connect {next : BucketState} (connected : connect now records replies = some next) :
    next.isAvailable = (replies.bucket.isOk && (reply records replies).any RemoteBucketState.isAvailable) := by
  unfold connect at connected
  cases bucket : replies.bucket with
  | ok => exact isAvailable_send (by rwa [bucket] at connected)
  | error failure =>
    rw [bucket] at connected
    exact Option.some.inj connected ▸ rfl

theorem isAvailable_writeBatch {state next : BucketState} (called : state.writeBatch now records replies = some next) :
    next.isAvailable = state.answers now records replies := by
  cases state with
  | initial => exact isAvailable_connect called
  | available result => exact isAvailable_send called
  | unavailable initTime result =>
    simp only [writeBatch] at called
    split_ifs at called with elapsed
    · simpa [answers, reaches, elapsed] using isAvailable_connect called
    · obtain rfl := Option.some.inj called
      simp [answers, reaches, elapsed, isAvailable]

end Calls

end BucketState

namespace ReplicationSender

/-- The log of an entry and the transactions that were processed: a record that could not be read was skipped, the others of
    the batch were sent and the remote answered. The remote bucket is lost if a call panics. -/
structure Replicator where
  entry : EntryLog
  bucket : Option BucketState
  processed : List Transaction

structure Cycle where
  read : Nat → Transaction → Except ReductError SourceRecord
  ioConfig : IoConfig
  notified : List Transaction
  now : Nat
  replies : RemoteReplies

inductive ReplicationEvent where
  | notify (event : Transaction)
  | probe (now : Nat) (replies : RemoteReplies)
  | other (now : Nat) (records : List (SourceRecord × Transaction)) (replies : RemoteReplies)
  | cycle (cycle : Cycle)
  | restart

def loadOrRecreateTransactionLog (path : String) (file : File) (transactionLogSize : Nat) : Except ReductError TransactionLog :=
  match tryLoadOrCreate path (some file) transactionLogSize with
  | .ok log => .ok log
  | .error _ => tryLoadOrCreate path none transactionLogSize

namespace Replicator

/-- `prepare_batch` and `send_batch`, between which the storage goes on to notify. -/
def replicate (state : Replicator) (cycle : Cycle) : Replicator :=
  let entry := cycle.notified.foldl EntryLog.notify state.entry
  match prepareBatch cycle.read cycle.ioConfig state.entry.log with
  | .ok (some prepared) =>
    match state.bucket.bind (·.writeBatch cycle.now prepared.batch cycle.replies) with
    | none => { state with entry, bucket := none }
    | some bucket =>
      { entry := { entry with
          log := (finishBatch prepared bucket.lastResult bucket.isAvailable entry.log).2
          gone := entry.gone + (entry.removed prepared bucket.isAvailable).length }
        bucket
        processed :=
          if state.bucket.any (·.answers cycle.now prepared.batch cycle.replies) then
            state.processed ++ (state.entry.history.drop state.entry.gone).take prepared.processedTransactions
          else state.processed }
  | _ => { state with entry }

-- the bucket is shared with the other entries of the replication
def apply (capacity : Nat) (state : Replicator) : ReplicationEvent → Replicator
  | .notify event => { state with entry := state.entry.notify event }
  | .probe now replies => { state with bucket := state.bucket.map (·.probe now replies) }
  | .other now records replies => { state with bucket := state.bucket.bind (·.writeBatch now records replies) }
  | .cycle cycle => state.replicate cycle
  | .restart =>
    let log := loadOrRecreateTransactionLog state.entry.log.filePath state.entry.log.file capacity
    { state with entry := { state.entry with log := log.toOption.getD state.entry.log }, bucket := some .initial }

/-- The log has room for what is notified, so that it gives up no transaction. -/
def Roomy (capacity : Nat) (state : Replicator) : ReplicationEvent → Prop
  | .notify _ => state.entry.log.len + 1 < capacity
  | .cycle cycle => state.entry.log.len + cycle.notified.length < capacity
  | _ => True

def new (log : TransactionLog) : Replicator := { entry := .fresh log, bucket := some .initial, processed := [] }

structure Accounts (capacity : Nat) (state : Replicator) : Prop where
  tracks : state.entry.Tracks capacity
  processed : state.processed = state.entry.history.take state.entry.gone

variable {capacity : Nat} {state : Replicator}

theorem Accounts.notifies (accounts : Accounts capacity state) (events : List Transaction)
    (room : state.entry.log.len + events.length < capacity) :
    let entry := events.foldl EntryLog.notify state.entry
    Accounts capacity { state with entry } ∧ entry.gone = state.entry.gone ∧
      entry.history = state.entry.history ++ events := by
  obtain ⟨tracks, history, gone⟩ := accounts.tracks.notifies events
  rw [accounts.tracks.len] at room
  have same : (events.foldl EntryLog.notify state.entry).gone = state.entry.gone := by omega
  refine ⟨⟨tracks, ?_⟩, same, history⟩
  rw [accounts.processed, same, history, List.take_append_of_le_length accounts.tracks.within]

theorem Accounts.replicate (accounts : Accounts capacity state) (cycle : Cycle)
    (room : state.entry.log.len + cycle.notified.length < capacity) : Accounts capacity (state.replicate cycle) := by
  obtain ⟨notified, gone, history⟩ := accounts.notifies cycle.notified room
  unfold Replicator.replicate
  split
  · rename_i prepared prepares
    dsimp only
    split
    · exact ⟨notified.tracks, notified.processed⟩
    · rename_i bucket called
      obtain ⟨before, present, sent⟩ := Option.bind_eq_some_iff.mp called
      rw [present, Option.any_some, ← BucketState.isAvailable_writeBatch sent]
      cases bucket.isAvailable with
      | false => exact ⟨notified.tracks, notified.processed⟩
      | true =>
        have pending := accounts.tracks.processed_le prepares cycle.notified
        obtain ⟨transactions, front, -, most⟩ := prepareBatch_processed _ _ _ _ prepares
        have length := (accounts.tracks.handed _ _ front).2
        have within := accounts.tracks.within
        have popped := congrArg List.length (notified.tracks.removed prepared)
        rw [List.length_range', min_eq_left pending] at popped
        refine ⟨?_, ?_⟩
        · simpa [EntryLog.acknowledge, EntryLog.removed, finishBatch] using
            notified.tracks.acknowledge prepared.processedTransactions
        · simp only [if_true, popped, gone, history, accounts.processed]
          rw [List.take_append_of_le_length (by rw [EntryLog.pending] at length; omega), List.take_add]
  · exact ⟨notified.tracks, notified.processed⟩

def sendingCycle (bucket : Except ReductError Unit) (now : Nat) : ReplicationEvent :=
  .cycle
    { read := readOneByte, ioConfig := { batchMaxRecords := 1, batchMaxSize := 1000 }, notified := [.writeRecord 2], now,
      replies := { bucket, update := .ok ∅, write := fun _ => .ok ∅ } }

def failsAndSends : List ReplicationEvent :=
  [.notify (.writeRecord 1), sendingCycle (.error (notFound "no bucket")) 0, .restart, sendingCycle (.ok ()) 6]

end Replicator

end ReplicationSender

end ReductStore
