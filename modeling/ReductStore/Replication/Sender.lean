import ReductStore.Replication.TransactionLog
import ReductStore.Shared.TreeMap

set_option autoImplicit false

namespace ReductStore

structure SourceRecord where
  timestamp : Nat
  contentType : String
  labels : List Label
  content : List UInt8
  deriving DecidableEq

def SourceRecord.contentLength (record : SourceRecord) : Nat := record.content.length

abbrev ErrorRecordMap := Std.ExtTreeMap Nat ReductError

abbrev ResultResult := Except ReductError Unit × Nat × Nat

structure PreparedBatch where
  batch : List (SourceRecord × Transaction)
  batchSizes : Std.ExtTreeMap Nat Nat
  counter : List ResultResult
  processedTransactions : Nat

inductive PrepareError where
  | brokenLog
  | panic
  deriving DecidableEq

structure IoConfig where
  batchMaxRecords : Nat
  batchMaxSize : Nat

namespace ReplicationSender

def emptyBatch : PreparedBatch := { batch := [], batchSizes := ∅, counter := [], processedTransactions := 0 }

def readTransactions (read : Nat → Transaction → Except ReductError SourceRecord) (batchMaxSize : Nat) :
    List Transaction → Nat → PreparedBatch → PreparedBatch
  | [], _, prepared => prepared
  | transaction :: transactions, totalSize, prepared =>
    let recordToSync := read prepared.processedTransactions transaction
    let prepared := { prepared with processedTransactions := prepared.processedTransactions + 1 }
    match recordToSync with
    | .ok record =>
      let totalSize := totalSize + record.contentLength
      let prepared := { prepared with
        batchSizes := prepared.batchSizes.insert transaction.timestamp.toNat record.contentLength
        batch := prepared.batch ++ [(record, transaction)] }
      if totalSize ≥ batchMaxSize then prepared
      else readTransactions read batchMaxSize transactions totalSize prepared
    | .error failure =>
      readTransactions read batchMaxSize transactions totalSize
        { prepared with counter := prepared.counter ++ [(.error failure, 1, 0)] }

def prepareBatch (read : Nat → Transaction → Except ReductError SourceRecord) (ioConfig : IoConfig)
    (log : TransactionLog) : Except PrepareError (Option PreparedBatch) :=
  match log.front ioConfig.batchMaxRecords with
  | .error (.error _) => .error .brokenLog
  | .error .panic => .error .panic
  | .ok [] => .ok none
  | .ok transactions => .ok (some (readTransactions read ioConfig.batchMaxSize transactions 0 emptyBatch))

structure SendOutcome where
  counter : List ResultResult
  bucketActive : Bool

/-- `send_batch` from the reply of the remote bucket on: the accounting, and the log without the processed
    transactions if the bucket is still active. -/
def finishBatch (prepared : PreparedBatch) (reply : Except ReductError ErrorRecordMap) (bucketActive : Bool)
    (log : TransactionLog) : SendOutcome × TransactionLog :=
  let batchSize := prepared.batch.length
  let counter :=
    match reply with
    | .ok map =>
      let written := prepared.batchSizes.toList.filter fun (timestamp, _) => !map.contains timestamp
      let writtenSize := (written.map (·.2)).sum
      (Except.ok (), TransactionLog.wrappingSub batchSize map.size, writtenSize) ::
        map.toList.map fun (_, failure) => (Except.error failure, 1, 0)
    | .error failure => [(.error failure, batchSize, 0)]
  let log := if bucketActive then (log.popFront prepared.processedTransactions).2 else log
  ({ counter := prepared.counter ++ counter, bucketActive }, log)

theorem processed_readTransactions (read : Nat → Transaction → Except ReductError SourceRecord) (batchMaxSize : Nat)
    (transactions : List Transaction) (totalSize : Nat) (prepared : PreparedBatch) :
    (readTransactions read batchMaxSize transactions totalSize prepared).processedTransactions ≤
        prepared.processedTransactions + transactions.length ∧
      (transactions ≠ [] → prepared.processedTransactions <
        (readTransactions read batchMaxSize transactions totalSize prepared).processedTransactions) := by
  induction transactions generalizing totalSize prepared with
  | nil => exact ⟨le_rfl, fun none => absurd rfl none⟩
  | cons transaction transactions ih =>
    have rest (totalSize : Nat) (next : PreparedBatch)
        (counted : next.processedTransactions = prepared.processedTransactions + 1) :
        (readTransactions read batchMaxSize transactions totalSize next).processedTransactions ≤
            prepared.processedTransactions + (transactions.length + 1) ∧
          prepared.processedTransactions <
            (readTransactions read batchMaxSize transactions totalSize next).processedTransactions := by
      obtain ⟨most, least⟩ := ih totalSize next
      cases transactions with
      | nil => simp [readTransactions, counted]
      | cons _ _ =>
        have := least (List.cons_ne_nil _ _)
        omega
    rw [readTransactions, List.length_cons]
    cases read prepared.processedTransactions transaction with
    | ok record =>
      simp only
      split
      · exact ⟨by simp, fun _ => by simp⟩
      · exact ⟨(rest _ _ (by rfl)).1, fun _ => (rest _ _ (by rfl)).2⟩
    | error failure => exact ⟨(rest _ _ (by rfl)).1, fun _ => (rest _ _ (by rfl)).2⟩

end ReplicationSender

end ReductStore
