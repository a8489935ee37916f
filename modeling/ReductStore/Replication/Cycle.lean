import ReductStore.Replication.Sender
import ReductStore.Replication.TransactionQueue

set_option autoImplicit false

namespace ReductStore.ReplicationSender

open TransactionLog

/-- The log of an entry with all transactions that were pushed to it, of which the first `gone` have left it.
    The ticket of a transaction is its number in the history. -/
structure EntryLog where
  log : TransactionLog
  history : List Transaction
  gone : Nat

namespace EntryLog

def notify (entry : EntryLog) (event : Transaction) : EntryLog :=
  let (evicted, log) := entry.log.pushBack event
  { log
    history := entry.history ++ [event]
    gone := match evicted with
      | .ok (some _) => entry.gone + 1
      | _ => entry.gone }

def acknowledge (entry : EntryLog) (count : Nat) : EntryLog :=
  let (popped, log) := entry.log.popFront count
  { entry with log, gone := entry.gone + popped }

def handed (entry : EntryLog) (count : Nat) : List Nat :=
  match entry.log.front count with
  | .ok transactions => List.range' entry.gone transactions.length
  | .error _ => []

def removed (entry : EntryLog) (prepared : PreparedBatch) (bucketActive : Bool) : List Nat :=
  if bucketActive then List.range' entry.gone (entry.log.popFront prepared.processedTransactions).1 else []

structure Tracks (entry : EntryLog) (capacity : Nat) : Prop where
  held : Represents entry.log capacity (entry.history.drop entry.gone)
  within : entry.gone ≤ entry.history.length

def pending (entry : EntryLog) : Nat := entry.history.length - entry.gone

namespace Tracks

variable {entry : EntryLog} {capacity : Nat}

theorem pending_lt (tracks : Tracks entry capacity) : entry.pending < capacity := by
  have room := tracks.held.2
  rwa [List.length_drop] at room

theorem len (tracks : Tracks entry capacity) : entry.log.len = entry.pending := by
  rw [tracks.held.len, List.length_drop, pending]

theorem notify (tracks : Tracks entry capacity) (event : Transaction) :
    Tracks (entry.notify event) capacity ∧
      (entry.notify event).gone = if entry.pending + 1 > capacity - 1 then entry.gone + 1 else entry.gone := by
  obtain ⟨reply, held⟩ := tracks.held.pushBack event
  have within := tracks.within
  have pushed : entry.history.drop entry.gone ++ [event] = (entry.history ++ [event]).drop entry.gone := by
    rw [List.drop_append_of_le_length within]
  have length : (entry.history.drop entry.gone).length = entry.pending := List.length_drop
  simp only [enqueue, length, pushed, List.tail_drop] at reply held
  by_cases full : entry.pending + 1 > capacity - 1
  · simp only [full, if_true] at reply held ⊢
    have oldest : ∃ evicted, ((entry.history ++ [event]).drop entry.gone).head? = some evicted := by
      rw [← pushed]
      cases entry.history.drop entry.gone with
      | nil => exact ⟨_, rfl⟩
      | cons _ _ => exact ⟨_, rfl⟩
    obtain ⟨evicted, same⟩ := oldest
    rw [same] at reply
    have gone : (entry.notify event).gone = entry.gone + 1 := by simp only [EntryLog.notify, reply]
    refine ⟨⟨?_, ?_⟩, gone⟩
    · rw [gone]
      exact held
    · rw [gone]
      simp only [EntryLog.notify, List.length_append, List.length_singleton]
      omega
  · simp only [full, if_false] at reply held ⊢
    have gone : (entry.notify event).gone = entry.gone := by simp only [EntryLog.notify, reply]
    refine ⟨⟨?_, ?_⟩, gone⟩
    · rw [gone]
      exact held
    · rw [gone]
      simp only [EntryLog.notify, List.length_append]
      omega

theorem notifies (tracks : Tracks entry capacity) (events : List Transaction) :
    Tracks (events.foldl EntryLog.notify entry) capacity ∧
      (events.foldl EntryLog.notify entry).history = entry.history ++ events ∧
      (events.foldl EntryLog.notify entry).gone = entry.gone + (entry.pending + events.length - (capacity - 1)) := by
  induction events generalizing entry with
  | nil =>
    have room := tracks.pending_lt
    exact ⟨tracks, by simp, by simp; omega⟩
  | cons event events ih =>
    obtain ⟨next, gone⟩ := tracks.notify event
    obtain ⟨after, history, later⟩ := ih next
    have grown : (entry.notify event).history = entry.history ++ [event] := rfl
    refine ⟨after, ?_, ?_⟩
    · rw [List.foldl_cons, history, grown, List.append_assoc]
      rfl
    · have room := tracks.pending_lt
      have within := tracks.within
      rw [List.foldl_cons, later, List.length_cons, pending, grown, List.length_append, List.length_singleton]
      by_cases full : entry.pending + 1 > capacity - 1
      · rw [if_pos full] at gone
        simp only [gone, pending] at full room ⊢
        omega
      · rw [if_neg full] at gone
        simp only [gone, pending] at full room ⊢
        omega

theorem acknowledge (tracks : Tracks entry capacity) (count : Nat) : Tracks (entry.acknowledge count) capacity := by
  obtain ⟨popped, held⟩ := tracks.held.popFront count
  rw [List.length_drop] at popped
  have within := tracks.within
  refine ⟨?_, ?_⟩
  · simp only [EntryLog.acknowledge, popped]
    rw [List.drop_eq_drop_min, List.length_drop, List.drop_drop] at held
    exact held
  · simp only [EntryLog.acknowledge, popped]
    omega

theorem handed (tracks : Tracks entry capacity) (count : Nat) (transactions : List Transaction)
    (front : entry.log.front count = .ok transactions) :
    entry.handed count = List.range' entry.gone (min count entry.pending) ∧
      transactions.length = min count entry.pending := by
  have length : transactions.length = min count entry.pending := by
    rw [tracks.held.take_of_front count transactions front, List.length_take, List.length_drop, pending]
  simp only [EntryLog.handed, front, length, and_self]

theorem removed (tracks : Tracks entry capacity) (prepared : PreparedBatch) :
    entry.removed prepared true = List.range' entry.gone (min prepared.processedTransactions entry.pending) := by
  obtain ⟨popped, _⟩ := tracks.held.popFront prepared.processedTransactions
  rw [List.length_drop] at popped
  rw [EntryLog.removed, if_pos rfl, popped, pending]

end Tracks

inductive LogEvent where
  | notify (event : Transaction)
  | acknowledge (count : Nat)

def change (entry : EntryLog) : LogEvent → EntryLog
  | .notify event => entry.notify event
  | .acknowledge count => entry.acknowledge count

theorem Tracks.changes {entry : EntryLog} {capacity : Nat} (tracks : Tracks entry capacity) (events : List LogEvent) :
    Tracks (events.foldl change entry) capacity := by
  induction events generalizing entry with
  | nil => exact tracks
  | cons event events ih =>
    cases event with
    | notify event => exact ih (tracks.notify event).1
    | acknowledge count => exact ih (tracks.acknowledge count)

def fresh (log : TransactionLog) : EntryLog := { log, history := [], gone := 0 }

theorem tracks_created {path : String} {capacity : Nat} (positive : 1 ≤ capacity)
    (representable : capacity * entrySize + headerSize < 2 ^ 63) {start : TransactionLog}
    (created : tryLoadOrCreate path none capacity = .ok start) (events : List LogEvent) :
    Tracks (events.foldl change (fresh start)) capacity :=
  Tracks.changes ⟨created_represents positive representable created, le_rfl⟩ events

end EntryLog

theorem prepareBatch_processed (read : Nat → Transaction → Except ReductError SourceRecord) (ioConfig : IoConfig)
    (log : TransactionLog) (prepared : PreparedBatch)
    (prepares : prepareBatch read ioConfig log = .ok (some prepared)) :
    ∃ transactions, log.front ioConfig.batchMaxRecords = .ok transactions ∧
      0 < prepared.processedTransactions ∧ prepared.processedTransactions ≤ transactions.length := by
  rw [prepareBatch] at prepares
  split at prepares
  · cases prepares
  · cases prepares
  · cases prepares
  · rename_i transactions some front
    obtain rfl := Option.some.inj (Except.ok.inj prepares)
    obtain ⟨most, least⟩ := processed_readTransactions read ioConfig.batchMaxSize transactions 0 emptyBatch
    exact ⟨transactions, front, least some, by simpa [emptyBatch] using most⟩

theorem EntryLog.Tracks.processed_le {entry : EntryLog} {capacity : Nat} (tracks : Tracks entry capacity)
    {read : Nat → Transaction → Except ReductError SourceRecord} {ioConfig : IoConfig} {prepared : PreparedBatch}
    (prepares : prepareBatch read ioConfig entry.log = .ok (some prepared)) (notified : List Transaction) :
    prepared.processedTransactions ≤ (notified.foldl EntryLog.notify entry).pending := by
  obtain ⟨transactions, front, _, most⟩ := prepareBatch_processed read ioConfig entry.log prepared prepares
  obtain ⟨_, history, gone⟩ := tracks.notifies notified
  obtain ⟨_, length⟩ := tracks.handed ioConfig.batchMaxRecords transactions front
  have room := tracks.pending_lt
  have within := tracks.within
  rw [EntryLog.pending, history, gone, List.length_append]
  simp only [EntryLog.pending] at length room ⊢
  omega

theorem range_subset (first count start length : Nat) (positive : 0 < count) :
    List.range' first count ⊆ List.range' start length ↔ start ≤ first ∧ first + count ≤ start + length := by
  constructor
  · intro subset
    have head := subset (List.mem_range'_1.mpr ⟨le_rfl, by omega⟩ : first ∈ _)
    have last := subset (List.mem_range'_1.mpr ⟨by omega, by omega⟩ : first + count - 1 ∈ _)
    rw [List.mem_range'_1] at head last
    omega
  · intro bounds ticket member
    rw [List.mem_range'_1] at member ⊢
    omega

/-- A cycle removes only transactions that were handed to it if the bucket is not active, or those that leave the log
    during the call and the processed ones are no more than those. -/
theorem removed_handed (path : String) (capacity : Nat) (positive : 1 ≤ capacity)
    (representable : capacity * entrySize + headerSize < 2 ^ 63) (start : TransactionLog)
    (created : tryLoadOrCreate path none capacity = .ok start) (events : List EntryLog.LogEvent)
    (read : Nat → Transaction → Except ReductError SourceRecord) (ioConfig : IoConfig) (prepared : PreparedBatch)
    (prepares : prepareBatch read ioConfig (events.foldl EntryLog.change (.fresh start)).log = .ok (some prepared))
    (notified : List Transaction) (bucketActive : Bool) :
    (notified.foldl EntryLog.notify (events.foldl EntryLog.change (.fresh start))).removed prepared bucketActive ⊆
        (events.foldl EntryLog.change (.fresh start)).handed ioConfig.batchMaxRecords ↔
      bucketActive = false ∨
        (events.foldl EntryLog.change (.fresh start)).log.len + notified.length - (capacity - 1) +
            prepared.processedTransactions ≤
          min ioConfig.batchMaxRecords (events.foldl EntryLog.change (.fresh start)).log.len := by
  have tracks := EntryLog.tracks_created positive representable created events
  generalize events.foldl EntryLog.change (.fresh start) = entry at prepares tracks ⊢
  obtain ⟨transactions, front, least, most⟩ := prepareBatch_processed read ioConfig entry.log prepared prepares
  obtain ⟨after, history, gone⟩ := tracks.notifies notified
  cases bucketActive with
  | false => simp [EntryLog.removed]
  | true =>
    obtain ⟨handed, length⟩ := tracks.handed ioConfig.batchMaxRecords transactions front
    have room := tracks.pending_lt
    have within := tracks.within
    have longer := tracks.processed_le prepares notified
    rw [after.removed, tracks.len, handed, min_eq_left longer, gone, range_subset _ _ _ _ least]
    simp only [Bool.true_eq_false, false_or]
    omega

def readOneByte (_ : Nat) (transaction : Transaction) : Except ReductError SourceRecord :=
  .ok { timestamp := transaction.timestamp.toNat, contentType := "text/plain", labels := [], content := [65] }

def twoPushed : List EntryLog.LogEvent := [.notify (.writeRecord 1), .notify (.writeRecord 2)]

def bothPrepared : PreparedBatch :=
  readTransactions readOneByte 1000 [.writeRecord 1, .writeRecord 2] 0 emptyBatch

theorem removed_handed_with_push : ∃ start, tryLoadOrCreate "sensor.log" none 5 = .ok start ∧
    let entry := twoPushed.foldl EntryLog.change (.fresh start)
    prepareBatch readOneByte { batchMaxRecords := 10, batchMaxSize := 1000 } entry.log = .ok (some bothPrepared) ∧
    (entry.notify (.writeRecord 3)).removed bothPrepared true ⊆ entry.handed 10 :=
  ⟨_, rfl, rfl, (removed_handed "sensor.log" 5 (by decide) (by decide) _ rfl twoPushed readOneByte
    { batchMaxRecords := 10, batchMaxSize := 1000 } bothPrepared rfl [.writeRecord 3] true).mpr (by decide +kernel)⟩

theorem removed_unsent : ∃ start, tryLoadOrCreate "sensor.log" none 3 = .ok start ∧
    let entry := twoPushed.foldl EntryLog.change (.fresh start)
    prepareBatch readOneByte { batchMaxRecords := 10, batchMaxSize := 1000 } entry.log = .ok (some bothPrepared) ∧
    entry.handed 10 = [0, 1] ∧ (entry.notify (.writeRecord 3)).removed bothPrepared true = [1, 2] ∧
    (finishBatch bothPrepared (.ok ∅) true (entry.notify (.writeRecord 3)).log).2.front 10 = .ok [] :=
  ⟨_, rfl, rfl, by decide +kernel⟩

end ReductStore.ReplicationSender
