import ReductStore.Replication.WriteBatch

set_option autoImplicit false

namespace ReductStore.ReplicationSender

open TransactionLog TreeMap

def isFailed (reply : Except ReductError ErrorRecordMap) (time : Nat) : Bool :=
  match reply with
  | .ok map => map.contains time
  | .error _ => true

def deliveredSize (reply : Except ReductError ErrorRecordMap) (batch : List (SourceRecord × Transaction)) : Nat :=
  ((batch.filter fun pair => ! isFailed reply pair.1.timestamp).map fun pair => pair.1.contentLength).sum

def recordedCount (counter : List ResultResult) : Nat := (counter.map fun result => result.2.1).sum

def recordedSize (counter : List ResultResult) : Nat := (counter.map fun result => result.2.2).sum

structure Balances (prepared : PreparedBatch) (reply : Except ReductError ErrorRecordMap) (log : TransactionLog) : Prop where
  counts : recordedCount (finishBatch prepared reply true log).1.counter = (log.popFront prepared.processedTransactions).1
  sizes : recordedSize (finishBatch prepared reply true log).1.counter = deliveredSize reply prepared.batch

structure Recorded (prepared : PreparedBatch) : Prop where
  counts : recordedCount prepared.counter + prepared.batch.length = prepared.processedTransactions
  unsent : recordedSize prepared.counter = 0
  sizes : prepared.batchSizes =
    KeyTable.table (fun pair => pair.1.timestamp) (fun pair => pair.1.contentLength) prepared.batch.reverse

section Reading

variable {read : Nat → Transaction → Except ReductError SourceRecord}

theorem Recorded.ok {prepared : PreparedBatch} (recorded : Recorded prepared) {transaction : Transaction} {record : SourceRecord}
    (own : record.timestamp = transaction.timestamp.toNat) :
    Recorded { prepared with
      processedTransactions := prepared.processedTransactions + 1
      batchSizes := prepared.batchSizes.insert transaction.timestamp.toNat record.contentLength
      batch := prepared.batch ++ [(record, transaction)] } := by
  refine ⟨?_, recorded.unsent, ?_⟩
  · have counts := recorded.counts
    simp only [List.length_append, List.length_singleton]
    omega
  · simp only [recorded.sizes, List.reverse_append, List.reverse_singleton, List.singleton_append, ← own]
    rfl

theorem Recorded.error {prepared : PreparedBatch} (recorded : Recorded prepared) (failure : ReductError) :
    Recorded { prepared with
      processedTransactions := prepared.processedTransactions + 1
      counter := prepared.counter ++ [(.error failure, 1, 0)] } := by
  have counts := recorded.counts
  have unsent := recorded.unsent
  refine ⟨?_, ?_, recorded.sizes⟩
  · simp only [recordedCount, List.map_append, List.sum_append, List.map_cons, List.map_nil, List.sum_singleton] at counts ⊢
    omega
  · simp only [recordedSize, List.map_append, List.sum_append, List.map_cons, List.map_nil, List.sum_singleton] at unsent ⊢
    omega

theorem Recorded.readTransactions
    (exactly : ∀ number transaction record, read number transaction = .ok record → record.timestamp = transaction.timestamp.toNat)
    (batchMaxSize : Nat) (transactions : List Transaction) (totalSize : Nat) {prepared : PreparedBatch}
    (recorded : Recorded prepared) :
    Recorded (readTransactions read batchMaxSize transactions totalSize prepared) := by
  induction transactions generalizing totalSize prepared with
  | nil => exact recorded
  | cons transaction rest ih =>
    rw [ReplicationSender.readTransactions]
    cases result : read prepared.processedTransactions transaction with
    | ok record =>
      have next := recorded.ok (exactly _ _ _ result)
      simp only
      split
      · exact next
      · exact ih _ next
    | error failure => exact ih _ (recorded.error failure)

theorem recorded_prepareBatch
    (exactly : ∀ number transaction record, read number transaction = .ok record → record.timestamp = transaction.timestamp.toNat)
    {ioConfig : IoConfig} {log : TransactionLog} {prepared : PreparedBatch}
    (prepares : prepareBatch read ioConfig log = .ok (some prepared)) : Recorded prepared := by
  rw [prepareBatch] at prepares
  split at prepares
  · cases prepares
  · cases prepares
  · cases prepares
  · obtain rfl := Option.some.inj (Except.ok.inj prepares)
    exact Recorded.readTransactions exactly _ _ _ ⟨rfl, rfl, rfl⟩

end Reading

section Sums

theorem sum_filter_not {α : Type} (dropped : α → Bool) (measure : α → Nat) (items : List α) :
    ((items.filter fun item => ! dropped item).map measure).sum =
      (items.map fun item => if dropped item then 0 else measure item).sum := by
  induction items with
  | nil => rfl
  | cons item rest ih =>
    cases kept : dropped item with
    | true => simp [kept, ih]
    | false => simp [kept, ih]

theorem map_table (map : ErrorRecordMap) (items : List (SourceRecord × Transaction)) :
    (KeyTable.table (fun pair => pair.1.timestamp) (fun pair => pair.1.contentLength) items).map
        (fun time size => if map.contains time then 0 else size) =
      KeyTable.table (fun pair => pair.1.timestamp)
        (fun pair => if map.contains pair.1.timestamp then 0 else pair.1.contentLength) items := by
  refine ext_get fun time => ?_
  rw [Std.ExtTreeMap.getElem?_map]
  induction items with
  | nil => simp [KeyTable.table]
  | cons head rest ih =>
    have first := get_insert (KeyTable.table (fun pair : SourceRecord × Transaction => pair.1.timestamp)
      (fun pair => pair.1.contentLength) rest) head.1.timestamp time head.1.contentLength
    have second := get_insert (KeyTable.table (fun pair : SourceRecord × Transaction => pair.1.timestamp)
      (fun pair => if map.contains pair.1.timestamp then 0 else pair.1.contentLength) rest) head.1.timestamp time
      (if map.contains head.1.timestamp then 0 else head.1.contentLength)
    refine (congrArg _ first).trans (Eq.trans ?_ second.symm)
    by_cases same : time = head.1.timestamp
    · simp [same]
    · rw [if_neg same, if_neg same, ih]

def Superseding (reply : Except ReductError ErrorRecordMap) (batch : List (SourceRecord × Transaction)) : Prop :=
  batch.Pairwise fun first second => first.1.timestamp = second.1.timestamp →
    isFailed reply first.1.timestamp = false → first.1.contentLength = 0

theorem written_iff {prepared : PreparedBatch} (recorded : Recorded prepared) (map : ErrorRecordMap) :
    ((prepared.batchSizes.toList.filter fun entry => ! map.contains entry.1).map (·.2)).sum =
        deliveredSize (.ok map) prepared.batch ↔ Superseding (.ok map) prepared.batch := by
  have table := KeyTable.sumBy_table_iff (fun pair : SourceRecord × Transaction => pair.1.timestamp)
    (fun pair => if map.contains pair.1.timestamp then 0 else pair.1.contentLength)
    (fun pair => if map.contains pair.1.timestamp then [] else pair.1.content) id
    (fun pair => by dsimp only [id]; split <;> rfl) prepared.batch.reverse
  rw [← map_table, sumBy, Std.ExtTreeMap.toList_map, List.map_map, ← recorded.sizes] at table
  have total : KeyTable.total (fun pair : SourceRecord × Transaction =>
      if map.contains pair.1.timestamp then [] else pair.1.content) prepared.batch.reverse =
      deliveredSize (.ok map) prepared.batch := by
    rw [KeyTable.total, List.map_reverse, List.sum_reverse, deliveredSize, sum_filter_not]
    refine congrArg List.sum (List.map_congr_left fun pair _ => ?_)
    cases failed : map.contains pair.1.timestamp with
    | true => simp [isFailed, failed]
    | false => simp [isFailed, failed, SourceRecord.contentLength]
  rw [sum_filter_not, ← total]
  refine table.trans ?_
  rw [KeyTable.Distinguished, List.pairwise_reverse]
  refine List.Pairwise.iff fun first second => ?_
  rw [eq_comm]
  refine imp_congr_right fun _ => ?_
  dsimp only [isFailed]
  cases map.contains first.1.timestamp with
  | true => simp
  | false => simp [SourceRecord.contentLength]

end Sums

section Counts

theorem size_le {map : ErrorRecordMap} {batch : List (SourceRecord × Transaction)}
    (reported : ∀ time, map.contains time = true → ∃ pair ∈ batch, pair.1.timestamp = time) : map.size ≤ batch.length := by
  have distinct : map.keys.Nodup := (keys_sorted map).imp Nat.ne_of_lt
  have subset : map.keys ⊆ batch.map fun pair => pair.1.timestamp := by
    intro time member
    obtain ⟨pair, present, same⟩ := reported time (by simpa using member)
    exact List.mem_map.mpr ⟨pair, present, same⟩
  have bound := (List.subperm_of_subset distinct subset).length_le
  rwa [Std.ExtTreeMap.length_keys, List.length_map] at bound

theorem counts_ok {prepared : PreparedBatch} (recorded : Recorded prepared) {map : ErrorRecordMap}
    (most : map.size ≤ prepared.batch.length) (small : prepared.batch.length < 2 ^ 64) (log : TransactionLog) :
    recordedCount (finishBatch prepared (.ok map) true log).1.counter = prepared.processedTransactions := by
  have rest : wrappingSub prepared.batch.length map.size = prepared.batch.length - map.size := by
    unfold wrappingSub
    omega
  have failures : (map.toList.map fun _ => 1).sum = map.size := by simp
  have counts := recorded.counts
  simp only [recordedCount, finishBatch, List.map_append, List.sum_append, List.map_cons, List.sum_cons, List.map_map,
    Function.comp_def, rest, failures] at counts ⊢
  omega

theorem balances_ok {prepared : PreparedBatch} (recorded : Recorded prepared) {map : ErrorRecordMap} {log : TransactionLog}
    (most : map.size ≤ prepared.batch.length) (small : prepared.batch.length < 2 ^ 64)
    (popped : (log.popFront prepared.processedTransactions).1 = prepared.processedTransactions) :
    Balances prepared (.ok map) log ↔ Superseding (.ok map) prepared.batch := by
  have counts := (counts_ok recorded most small log).trans popped.symm
  have size : recordedSize (finishBatch prepared (.ok map) true log).1.counter =
      ((prepared.batchSizes.toList.filter fun entry => ! map.contains entry.1).map (·.2)).sum := by
    have unsent := recorded.unsent
    simp only [recordedSize, finishBatch, List.map_append, List.sum_append, List.map_cons, List.sum_cons, List.map_map,
      Function.comp_def] at unsent ⊢
    simp [unsent]
  rw [← written_iff recorded map, ← size]
  exact ⟨Balances.sizes, fun sizes => ⟨counts, sizes⟩⟩

theorem balances_error {prepared : PreparedBatch} (recorded : Recorded prepared) (failure : ReductError) {log : TransactionLog}
    (popped : (log.popFront prepared.processedTransactions).1 = prepared.processedTransactions) :
    Balances prepared (.error failure) log ∧ Superseding (.error failure) prepared.batch := by
  have counts := recorded.counts
  have unsent := recorded.unsent
  refine ⟨⟨?_, ?_⟩, List.pairwise_of_forall fun _ _ _ failed => Bool.noConfusion failed⟩
  · rw [popped, ← counts]
    simp [recordedCount, finishBatch]
  · simp only [recordedSize] at unsent
    simp [recordedSize, finishBatch, deliveredSize, isFailed, unsent]

end Counts

section Remote

open BucketAvailableState

variable {batch : List (SourceRecord × Transaction)}

def Reports (batch : List (SourceRecord × Transaction)) (reply : Except ReductError ErrorRecordMap) : Prop :=
  ∀ map, reply = .ok map → ∀ time, map.contains time = true → ∃ pair ∈ batch, pair.1.timestamp = time

theorem reports_updateErrors {updateReply : Except ReductError ErrorRecordMap} (reports : Reports batch updateReply) :
    Reports batch (updateErrors ((batch.filter fun pair => ! isWrite pair).map (·.1)) updateReply) := by
  intro map errors time failed
  unfold updateErrors at errors
  split_ifs at errors
  · obtain rfl := Except.ok.inj errors
    simp at failed
  · split at errors
    · exact reports map errors time failed
    · split_ifs at errors
      obtain rfl := Except.ok.inj errors
      have listed (records : List SourceRecord) (start : ErrorRecordMap) (failure : ReductError)
          (found : (records.foldl (fun map record => map.insert record.timestamp failure) start).contains time = true) :
          start.contains time = true ∨ ∃ record ∈ records, record.timestamp = time := by
        induction records generalizing start with
        | nil => exact .inl found
        | cons record rest ih =>
          rcases ih _ found with early | ⟨other, member, same⟩
          · rw [Std.ExtTreeMap.contains_insert, Bool.or_eq_true] at early
            rcases early with equal | early
            · exact .inr ⟨record, List.mem_cons_self, by simpa using equal⟩
            · exact .inl early
          · exact .inr ⟨other, List.mem_cons_of_mem _ member, same⟩
      rcases listed _ ∅ _ failed with none | ⟨record, member, same⟩
      · simp at none
      · obtain ⟨pair, present, rfl⟩ := List.mem_map.mp member
        exact ⟨pair, List.mem_of_mem_filter present, same⟩

theorem reports_writeBatch {updateReply reply : Except ReductError ErrorRecordMap}
    {writeReply : WriteRequest → Except ReductError ErrorRecordMap} (updates : Reports batch updateReply)
    (writes : ∀ request, Reports batch (writeReply request))
    (available : writeBatch batch updateReply writeReply = some (.available reply)) : Reports batch reply := by
  have checked (failure : ReductError) (same : checkErrorAndChangeState failure = .available reply) : Reports batch reply := by
    unfold checkErrorAndChangeState at same
    split at same
    all_goals cases same
    rintro map ⟨⟩
  have first := reports_updateErrors updates
  unfold writeBatch at available
  simp only [Option.bind_eq_bind, Option.pure_def] at available
  -- The headers of an update request are built or there is none; the rest is the same.
  split at available
  case' isTrue => obtain ⟨_, _, available⟩ := Option.bind_eq_some_iff.mp available
  all_goals
    split at available
    · exact checked _ (Option.some.inj available)
    · next errorMap errors =>
      split at available
      · obtain rfl := RemoteBucketState.available.inj (Option.some.inj available)
        exact errors ▸ first
      · obtain ⟨request, _, answered⟩ := Option.bind_eq_some_iff.mp available
        split at answered
        · next map same =>
          obtain rfl := RemoteBucketState.available.inj (Option.some.inj answered)
          exact same ▸ writes request
        · exact checked _ (Option.some.inj answered)

end Remote

/-- The counts of a batch sum up to the popped transactions, and the written bytes are those of the records that are
    not reported as failed, exactly if no record with content is sent twice. -/
theorem balances_iff (path : String) (capacity : Nat) (positive : 1 ≤ capacity)
    (representable : capacity * entrySize + headerSize < 2 ^ 63) (start : TransactionLog)
    (created : tryLoadOrCreate path none capacity = .ok start) (events : List EntryLog.LogEvent)
    (read : Nat → Transaction → Except ReductError SourceRecord)
    (exactly : ∀ number transaction record, read number transaction = .ok record → record.timestamp = transaction.timestamp.toNat)
    (ioConfig : IoConfig) (prepared : PreparedBatch)
    (prepares : prepareBatch read ioConfig (events.foldl EntryLog.change (.fresh start)).log = .ok (some prepared))
    (notified : List Transaction) (updateReply reply : Except ReductError ErrorRecordMap)
    (writeReply : WriteRequest → Except ReductError ErrorRecordMap) (updates : Reports prepared.batch updateReply)
    (writes : ∀ request, Reports prepared.batch (writeReply request))
    (available : BucketAvailableState.writeBatch prepared.batch updateReply writeReply = some (.available reply)) :
    Balances prepared reply (notified.foldl EntryLog.notify (events.foldl EntryLog.change (.fresh start))).log ↔
      Superseding reply prepared.batch := by
  have tracks := EntryLog.tracks_created positive representable created events
  generalize events.foldl EntryLog.change (.fresh start) = entry at prepares tracks ⊢
  have recorded := recorded_prepareBatch exactly prepares
  have reported := reports_writeBatch updates writes available
  have within := tracks.processed_le prepares notified
  obtain ⟨after, _, _⟩ := tracks.notifies notified
  have popped : ((notified.foldl EntryLog.notify entry).log.popFront prepared.processedTransactions).1 =
      prepared.processedTransactions := by
    rw [(after.held.popFront prepared.processedTransactions).1, List.length_drop]
    exact min_eq_left within
  cases reply with
  | ok map =>
    refine balances_ok recorded (size_le (reported map rfl)) ?_ popped
    have counts := recorded.counts
    have room := after.pending_lt
    rw [entrySize] at representable
    omega
  | error failure =>
    obtain ⟨balances, superseding⟩ := balances_error recorded failure popped
    exact iff_of_true balances superseding

section Sample

theorem readOneByte_exactly (number : Nat) (transaction : Transaction) (record : SourceRecord)
    (found : readOneByte number transaction = .ok record) : record.timestamp = transaction.timestamp.toNat := by
  obtain rfl := Except.ok.inj found
  rfl

theorem reports_none (batch : List (SourceRecord × Transaction)) : Reports batch (.ok ∅) := by
  rintro map ⟨⟩ time failed
  simp at failed

theorem balances_two_records : ∃ start, tryLoadOrCreate "sensor.log" none 3 = .ok start ∧
    prepareBatch readOneByte { batchMaxRecords := 10, batchMaxSize := 1000 }
      (twoPushed.foldl EntryLog.change (.fresh start)).log = .ok (some bothPrepared) ∧
    Balances bothPrepared (.ok ∅) (twoPushed.foldl EntryLog.change (.fresh start)).log :=
  ⟨_, rfl, rfl, (balances_iff "sensor.log" 3 (by decide) (by decide) _ rfl twoPushed readOneByte readOneByte_exactly
    { batchMaxRecords := 10, batchMaxSize := 1000 } bothPrepared rfl [] (.ok ∅) (.ok ∅) (fun _ => .ok ∅)
    (reports_none _) (fun _ => reports_none _) rfl).mpr
      (List.pairwise_pair.mpr fun same => absurd same (by decide +kernel))⟩

theorem repeated_unbalanced : ∃ start prepared, tryLoadOrCreate "sensor.log" none 3 = .ok start ∧
    prepareBatch readOneByte { batchMaxRecords := 10, batchMaxSize := 1000 }
      (writtenAndUpdated.foldl EntryLog.change (.fresh start)).log = .ok (some prepared) ∧
    (BucketAvailableState.writeBatch prepared.batch (.ok ∅) fun _ => .ok ∅) = some (.available (.ok ∅)) ∧
    recordedSize (finishBatch prepared (.ok ∅) true (writtenAndUpdated.foldl EntryLog.change (.fresh start)).log).1.counter = 1 ∧
    deliveredSize (.ok ∅) prepared.batch = 2 :=
  ⟨_, _, rfl, rfl, rfl, by decide +kernel, by decide +kernel⟩

end Sample

end ReductStore.ReplicationSender
