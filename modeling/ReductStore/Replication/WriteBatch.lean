import ReductStore.Replication.Cycle
import ReductStore.Shared.KeyTable

set_option autoImplicit false

namespace ReductStore

open Std

structure RecordHeader where
  contentLength : Nat
  contentType : String
  labels : List String
  deriving DecidableEq

structure HeaderMap where
  contentType : String
  contentLength : Nat
  records : ExtTreeMap Nat RecordHeader

structure WriteRequest where
  headers : HeaderMap
  body : List UInt8

namespace BucketWrapper

def isHeaderText (text : String) : Bool :=
  text.toList.all fun char => char.toNat = 9 || (32 ≤ char.toNat && char.toNat < 127)

def labelHeader (label : Label) : String :=
  if label.value.contains ',' then label.name ++ "=\"" ++ label.value ++ "\"" else label.name ++ "=" ++ label.value

def recordHeader (record : SourceRecord) (updateOnly : Bool) : RecordHeader :=
  { contentLength := if updateOnly then 0 else record.contentLength
    contentType := if updateOnly then "" else record.contentType
    labels := (record.labels.map labelHeader).insertionSort (· ≤ ·) }

def RecordHeader.isText (header : RecordHeader) : Bool :=
  isHeaderText header.contentType && header.labels.all isHeaderText

def buildHeaders (records : List SourceRecord) (updateOnly : Bool) : Option HeaderMap :=
  let contentLength := if updateOnly then 0 else (records.map SourceRecord.contentLength).sum
  if records.all fun record => RecordHeader.isText (recordHeader record updateOnly) then
    some {
      contentType := "application/octet-stream"
      contentLength
      records := records.foldl (fun map record => map.insert record.timestamp (recordHeader record updateOnly)) ∅ }
  else none

def sortByTimestamp (records : List SourceRecord) : List SourceRecord :=
  records.insertionSort fun first second => second.timestamp ≤ first.timestamp

def prepareBatchToWrite (records : List SourceRecord) : Option WriteRequest := do
  let records := sortByTimestamp records
  let headers ← buildHeaders records false
  -- the stream takes the records from the end
  pure { headers, body := (records.reverse.map SourceRecord.content).flatten }

end BucketWrapper

inductive RemoteBucketState where
  | available (lastResult : Except ReductError ErrorRecordMap)
  | unavailable (failure : ReductError)

namespace BucketAvailableState

def checkErrorAndChangeState (failure : ReductError) : RemoteBucketState :=
  match failure.status with
  | .timeout | .connectionError | .badGateway | .serviceUnavailable | .gatewayTimeout | .tooManyRequests =>
    .unavailable failure
  | _ => .available (.error failure)

def isWrite (pair : SourceRecord × Transaction) : Bool :=
  match pair.2 with
  | .writeRecord _ => true
  | .updateRecord _ => false

def updateErrors (recordsToUpdate : List SourceRecord) (reply : Except ReductError ErrorRecordMap) :
    Except ReductError ErrorRecordMap :=
  if recordsToUpdate = [] then .ok ∅
  else
    match reply with
    | .ok errorMap => .ok errorMap
    | .error failure =>
      if failure.status = .notFound then
        .ok (recordsToUpdate.foldl (fun map record => map.insert record.timestamp failure) ∅)
      else .error failure

def recordsToWrite (records : List (SourceRecord × Transaction)) (errorMap : ErrorRecordMap) : List SourceRecord :=
  let toWrite := (records.filter isWrite).map (·.1)
  let toUpdate := (records.filter fun pair => !isWrite pair).map (·.1)
  toWrite ++ toUpdate.reverse.filter fun record => errorMap.contains record.timestamp

def writeBatch (records : List (SourceRecord × Transaction)) (updateReply : Except ReductError ErrorRecordMap)
    (writeReply : WriteRequest → Except ReductError ErrorRecordMap) : Option RemoteBucketState := do
  let recordsToUpdate := (records.filter fun pair => !isWrite pair).map (·.1)
  if recordsToUpdate ≠ [] then
    let _ ← BucketWrapper.buildHeaders recordsToUpdate true
  match updateErrors recordsToUpdate updateReply with
  | .error failure => pure (checkErrorAndChangeState failure)
  | .ok errorMap =>
    let toWrite := recordsToWrite records errorMap
    if toWrite = [] then pure (.available (.ok errorMap))
    else
      let request ← BucketWrapper.prepareBatchToWrite toWrite
      match writeReply request with
      | .ok errors => pure (.available (.ok errors))
      | .error failure => pure (checkErrorAndChangeState failure)

end BucketAvailableState

open BucketWrapper BucketAvailableState

structure WriteRequest.WellFormed (request : WriteRequest) (records : List SourceRecord) : Prop where
  named : ∀ time, time ∈ request.headers.records ↔ ∃ record ∈ records, record.timestamp = time
  length : request.headers.contentLength = TreeMap.sumBy RecordHeader.contentLength request.headers.records
  body : ∃ sent : List SourceRecord, sent.Pairwise (fun first second => first.timestamp < second.timestamp) ∧
    (∀ record ∈ sent, record ∈ records) ∧
    (∀ time header, request.headers.records[time]? = some header ↔
      ∃ record ∈ sent, record.timestamp = time ∧ recordHeader record false = header) ∧
    request.body = (sent.map SourceRecord.content).flatten

section Order

def Superseded (first second : SourceRecord) : Prop := first.timestamp = second.timestamp → first.content = []

theorem superseded_orderedInsert (record : SourceRecord) (records : List SourceRecord) :
    (records.orderedInsert (fun first second => second.timestamp ≤ first.timestamp) record).Pairwise Superseded ↔
      (record :: records).Pairwise Superseded := by
  induction records with
  | nil => simp
  | cons head rest ih =>
    by_cases before : head.timestamp ≤ record.timestamp
    · rw [List.orderedInsert, if_pos before]
    · -- the record goes behind the head, which has another timestamp
      have apart : Superseded head record ∧ Superseded record head :=
        ⟨fun same => absurd same (by omega), fun same => absurd same (by omega)⟩
      rw [List.orderedInsert, if_neg before, List.pairwise_cons, ih]
      simp only [List.mem_orderedInsert, List.pairwise_cons, List.mem_cons, forall_eq_or_imp, apart, true_and]
      tauto

theorem superseded_sort (records : List SourceRecord) :
    (sortByTimestamp records).Pairwise Superseded ↔ records.Pairwise Superseded := by
  induction records with
  | nil => exact Iff.rfl
  | cons record records ih =>
    have same (other : SourceRecord) : other ∈ sortByTimestamp records ↔ other ∈ records :=
      (List.perm_insertionSort _ records).mem_iff
    have step : sortByTimestamp (record :: records) = (sortByTimestamp records).orderedInsert
        (fun first second => second.timestamp ≤ first.timestamp) record := rfl
    rw [step, superseded_orderedInsert, List.pairwise_cons, List.pairwise_cons, ih]
    simp only [same]

theorem sorted_reverse (records : List SourceRecord) :
    (sortByTimestamp records).reverse.Pairwise fun first second => first.timestamp ≤ second.timestamp := by
  rw [List.pairwise_reverse]
  have total : Std.Total fun first second : SourceRecord => second.timestamp ≤ first.timestamp :=
    ⟨fun first second => Nat.le_total second.timestamp first.timestamp⟩
  have trans : IsTrans SourceRecord fun first second => second.timestamp ≤ first.timestamp :=
    ⟨fun _ _ _ first second => second.trans first⟩
  exact List.pairwise_insertionSort (fun first second : SourceRecord => second.timestamp ≤ first.timestamp) records

end Order

theorem prepareBatchToWrite_eq (records : List SourceRecord) (request : WriteRequest)
    (built : prepareBatchToWrite records = some request) :
    request.headers.records =
        KeyTable.table SourceRecord.timestamp (recordHeader · false) (sortByTimestamp records).reverse ∧
      request.headers.contentLength = KeyTable.total SourceRecord.content (sortByTimestamp records).reverse ∧
      request.body = ((sortByTimestamp records).reverse.map SourceRecord.content).flatten := by
  simp only [prepareBatchToWrite, buildHeaders, Option.bind_eq_bind, Option.pure_def] at built
  split at built
  · simp only [Option.bind_some, Option.some.injEq] at built
    subst built
    refine ⟨?_, ?_, rfl⟩
    · rw [KeyTable.table, List.foldr_reverse]
    · simp only [Bool.false_eq_true, if_false, KeyTable.total]
      rw [List.map_reverse, List.sum_reverse]
      rfl
  · simp at built

theorem wellFormed_iff (records : List SourceRecord) (request : WriteRequest)
    (built : prepareBatchToWrite records = some request) :
    request.WellFormed records ↔ records.Pairwise Superseded := by
  obtain ⟨table, length, body⟩ := prepareBatchToWrite_eq records request built
  have member (record : SourceRecord) : record ∈ (sortByTimestamp records).reverse ↔ record ∈ records := by
    rw [List.mem_reverse]
    exact (List.perm_insertionSort _ records).mem_iff
  have distinguished : KeyTable.Distinguished SourceRecord.timestamp SourceRecord.content
      (sortByTimestamp records).reverse ↔ records.Pairwise Superseded := by
    rw [← superseded_sort, KeyTable.Distinguished, List.pairwise_reverse]
    exact List.Pairwise.iff fun first second => by rw [Superseded, eq_comm]
  have sums := KeyTable.sumBy_table_iff SourceRecord.timestamp (recordHeader · false) SourceRecord.content
    RecordHeader.contentLength (fun _ => rfl) (sortByTimestamp records).reverse
  rw [← distinguished]
  constructor
  · intro wellFormed
    rw [← sums, ← table, ← length]
    exact wellFormed.length.symm
  · intro all
    exact {
      named := by
        intro time
        rw [table, KeyTable.contains_table]
        simp only [member]
      length := by
        rw [length, table]
        exact (sums.mpr all).symm
      body := by
        refine ⟨KeyTable.firsts SourceRecord.timestamp (sortByTimestamp records).reverse,
          KeyTable.firsts_sorted _ _ (sorted_reverse records), ?_, ?_, ?_⟩
        · exact fun record kept => (member record).mp (KeyTable.mem_of_mem_firsts _ _ record kept)
        · intro time header
          rw [table, KeyTable.get_table]
        · rw [body, KeyTable.content_firsts _ _ _ all] }

def isWritten (errorMap : ErrorRecordMap) (pair : SourceRecord × Transaction) : Prop :=
  isWrite pair = true ∨ errorMap.contains pair.1.timestamp = true

def Compatible (errorMap : ErrorRecordMap) (first second : SourceRecord × Transaction) : Prop :=
  first.1.timestamp = second.1.timestamp → isWritten errorMap first → isWritten errorMap second →
    (if isWrite first then first.1 else second.1).content = []

theorem mem_recordsToWrite (records : List (SourceRecord × Transaction)) (errorMap : ErrorRecordMap)
    (record : SourceRecord) :
    record ∈ recordsToWrite records errorMap ↔ ∃ pair ∈ records, isWritten errorMap pair ∧ pair.1 = record := by
  simp only [recordsToWrite, isWritten, List.mem_append, List.mem_map, List.mem_filter, List.mem_reverse]
  constructor
  · rintro (⟨pair, ⟨member, write⟩, rfl⟩ | ⟨⟨pair, ⟨member, update⟩, rfl⟩, failed⟩)
    · exact ⟨pair, member, Or.inl write, rfl⟩
    · exact ⟨pair, member, Or.inr failed, rfl⟩
  · rintro ⟨pair, member, written, rfl⟩
    by_cases write : isWrite pair = true
    · exact Or.inl ⟨pair, ⟨member, write⟩, rfl⟩
    · exact Or.inr ⟨⟨pair, ⟨member, by simpa using write⟩, rfl⟩, written.resolve_left write⟩

theorem recordsToWrite_superseded (records : List (SourceRecord × Transaction)) (errorMap : ErrorRecordMap) :
    (recordsToWrite records errorMap).Pairwise Superseded ↔ records.Pairwise (Compatible errorMap) := by
  induction records with
  | nil => simp [recordsToWrite]
  | cons pair records ih =>
    rw [List.pairwise_cons, ← ih]
    have member := mem_recordsToWrite records errorMap
    by_cases write : isWrite pair = true
    · -- a write is put before all others
      have step : recordsToWrite (pair :: records) errorMap = pair.1 :: recordsToWrite records errorMap := by
        simp [recordsToWrite, write]
      rw [step, List.pairwise_cons]
      refine and_congr_left fun _ => ⟨fun before other inside same _ written => ?_, fun compatible record inside same => ?_⟩
      · rw [if_pos write]
        exact before other.1 ((member _).mpr ⟨other, inside, written, rfl⟩) same
      · obtain ⟨other, found, written, rfl⟩ := (member record).mp inside
        have empty := compatible other found same (Or.inl write) written
        rwa [if_pos write] at empty
    · by_cases failed : errorMap.contains pair.1.timestamp = true
      · -- a failed update is put behind all others
        have step : recordsToWrite (pair :: records) errorMap = recordsToWrite records errorMap ++ [pair.1] := by
          simp only [recordsToWrite, List.filter_cons, write, failed, Bool.not_false, if_true, List.map_cons,
            List.reverse_cons, List.filter_append, List.append_assoc, Bool.false_eq_true, if_false, List.filter_nil]
        rw [step, List.pairwise_append]
        constructor
        · rintro ⟨kept, _, before⟩
          refine ⟨fun other inside same _ written => ?_, kept⟩
          rw [if_neg write]
          exact before other.1 ((member _).mpr ⟨other, inside, written, rfl⟩) pair.1 List.mem_cons_self same.symm
        · rintro ⟨compatible, kept⟩
          refine ⟨kept, List.pairwise_singleton _ _, fun record inside last single same => ?_⟩
          obtain rfl := List.mem_singleton.mp single
          obtain ⟨other, found, written, rfl⟩ := (member record).mp inside
          have empty := compatible other found same.symm (Or.inr failed) written
          rwa [if_neg write] at empty
      · have step : recordsToWrite (pair :: records) errorMap = recordsToWrite records errorMap := by
          simp [recordsToWrite, write, failed]
        rw [step, iff_and_self]
        intro _ other _ _ written
        exact absurd written (not_or_intro write failed)

/-- A batch makes a well-formed write request exactly if no record of it is written again with its content. -/
theorem writeRequest_wellFormed (records : List (SourceRecord × Transaction)) (errorMap : ErrorRecordMap)
    (request : WriteRequest) (built : prepareBatchToWrite (recordsToWrite records errorMap) = some request) :
    request.WellFormed (recordsToWrite records errorMap) ↔ records.Pairwise (Compatible errorMap) := by
  rw [wellFormed_iff _ request built, recordsToWrite_superseded]

def shortRecord (timestamp : Nat) : SourceRecord := { timestamp, contentType := "", labels := [], content := [65] }

theorem writeRequest_wellFormed_of_two : ∃ request,
    prepareBatchToWrite (recordsToWrite [(shortRecord 2, .writeRecord 2), (shortRecord 1, .updateRecord 1)]
      ((∅ : ErrorRecordMap).insert 1 (notFound "No record with timestamp 1"))) = some request ∧
    request.WellFormed [shortRecord 2, shortRecord 1] :=
  ⟨_, rfl, (writeRequest_wellFormed [(shortRecord 2, .writeRecord 2), (shortRecord 1, .updateRecord 1)]
    ((∅ : ErrorRecordMap).insert 1 (notFound "No record with timestamp 1")) _ rfl).mpr
      (by simp [Compatible, shortRecord])⟩

def writtenAndUpdated : List ReplicationSender.EntryLog.LogEvent :=
  [.notify (.writeRecord 1), .notify (.updateRecord 1)]

theorem repeated_timestamp_malformed : ∃ start prepared request,
    TransactionLog.tryLoadOrCreate "sensor.log" none 3 = .ok start ∧
    ReplicationSender.prepareBatch ReplicationSender.readOneByte { batchMaxRecords := 10, batchMaxSize := 1000 }
      (writtenAndUpdated.foldl ReplicationSender.EntryLog.change (.fresh start)).log = .ok (some prepared) ∧
    prepareBatchToWrite (recordsToWrite prepared.batch
      ((∅ : ErrorRecordMap).insert 1 (notFound "No record with timestamp 1"))) = some request ∧
    request.headers.contentLength = 2 ∧ TreeMap.sumBy RecordHeader.contentLength request.headers.records = 1 ∧
    ¬ request.WellFormed (recordsToWrite prepared.batch
      ((∅ : ErrorRecordMap).insert 1 (notFound "No record with timestamp 1"))) :=
  ⟨_, _, _, rfl, rfl, rfl, rfl, rfl, fun wellFormed => absurd wellFormed.length (by decide +kernel)⟩

end ReductStore
