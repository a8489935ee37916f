import ReductStore.Shared.TreeMap
import ReductStore.Shared.Placement
import ReductStore.Storage.Record

set_option autoImplicit false

namespace ReductStore

open Std TreeMap

def Keyed (records : ExtTreeMap Nat Record) : Prop :=
  ∀ (time : Nat) (record : Record), records[time]? = some record → record.timestamp = time

theorem Keyed.empty : Keyed ∅ := by
  intro time record found
  simp at found

theorem Keyed.insert {records : ExtTreeMap Nat Record} (keyed : Keyed records) (record : Record) :
    Keyed (records.insert record.timestamp record) := by
  intro time other found
  rw [get_insert] at found
  split_ifs at found with same
  · obtain rfl := Option.some.inj found
    exact same.symm
  · exact keyed time other found

theorem Keyed.erase {records : ExtTreeMap Nat Record} (keyed : Keyed records) (time : Nat) :
    Keyed (records.erase time) := by
  intro other record found
  rw [get_erase] at found
  split_ifs at found
  exact keyed other record found

/-- A block of records. Every record stands in the index under its own timestamp. -/
@[ext]
structure Block where
  blockId : Nat
  size : Nat
  recordCount : Nat
  metadataSize : Nat
  recordIndex : ExtTreeMap Nat Record
  keyed : Keyed recordIndex
  deriving DecidableEq

namespace Block

def new (blockId : Nat) : Block :=
  { blockId, size := 0, recordCount := 0, metadataSize := 0, recordIndex := ∅, keyed := .empty }

def getRecord (block : Block) (timestamp : Nat) : Option Record := block.recordIndex[timestamp]?

@[simp] theorem getRecord_new (blockId timestamp : Nat) : (new blockId).getRecord timestamp = none := by
  simp [getRecord, new]

@[simp] theorem blockId_new (blockId : Nat) : (new blockId).blockId = blockId := rfl

@[simp] theorem size_new (blockId : Nat) : (new blockId).size = 0 := rfl

@[simp] theorem recordCount_new (blockId : Nat) : (new blockId).recordCount = 0 := rfl

theorem getRecord_timestamp {block : Block} {time : Nat} {record : Record}
    (found : block.getRecord time = some record) : record.timestamp = time :=
  block.keyed time record found

section Encoded

variable [Codec]

def insertOrUpdateRecord (block : Block) (record : Record) : Block :=
  match block.getRecord record.timestamp with
  | some existing =>
    { block with
      size := block.size - existing.length + record.length
      metadataSize := block.metadataSize - min block.metadataSize existing.encodedLen + record.encodedLen
      recordIndex := block.recordIndex.insert record.timestamp record
      keyed := block.keyed.insert record }
  | none =>
    { block with
      size := block.size + record.length
      recordCount := block.recordCount + 1
      metadataSize := block.metadataSize + record.encodedLen
      recordIndex := block.recordIndex.insert record.timestamp record
      keyed := block.keyed.insert record }

@[simp] theorem getRecord_insertOrUpdate (block : Block) (record : Record) (time : Nat) :
    (block.insertOrUpdateRecord record).getRecord time =
      if time = record.timestamp then some record else block.getRecord time := by
  unfold insertOrUpdateRecord
  split <;> simp [getRecord]

@[simp] theorem blockId_insertOrUpdate (block : Block) (record : Record) :
    (block.insertOrUpdateRecord record).blockId = block.blockId := by
  unfold insertOrUpdateRecord
  split <;> rfl

def removeRecord (block : Block) (timestamp : Nat) : Block :=
  match block.getRecord timestamp with
  | some record =>
    { block with
      size := block.size - record.length
      recordCount := block.recordCount - 1
      metadataSize := block.metadataSize - min block.metadataSize record.encodedLen
      recordIndex := block.recordIndex.erase timestamp
      keyed := block.keyed.erase timestamp }
  | none => block

@[simp] theorem getRecord_removeRecord (block : Block) (timestamp time : Nat) :
    (block.removeRecord timestamp).getRecord time = if time = timestamp then none else block.getRecord time := by
  unfold removeRecord
  split
  · simp [getRecord]
  · rename_i absent
    by_cases same : time = timestamp
    · simp [same, absent]
    · simp [same]

@[simp] theorem blockId_removeRecord (block : Block) (timestamp : Nat) :
    (block.removeRecord timestamp).blockId = block.blockId := by
  unfold removeRecord
  split <;> rfl

end Encoded

def latestRecordTime (block : Block) : Nat := (lastKey block.recordIndex).getD 0

theorem le_latestRecordTime {block : Block} {time : Nat} {record : Record}
    (found : block.getRecord time = some record) : time ≤ block.latestRecordTime := by
  unfold latestRecordTime
  cases last : lastKey block.recordIndex with
  | none => simp [getRecord, (lastKey_none _).mp last time] at found
  | some key => exact ((lastKey_some _ key).mp last).2 time record found

def Occupied (block : Block) : Prop := ∃ time record, block.getRecord time = some record

theorem latestRecordTime_present {block : Block} (occupied : block.Occupied) :
    ∃ record, block.getRecord block.latestRecordTime = some record := by
  obtain ⟨time, record, found⟩ := occupied
  unfold latestRecordTime
  cases last : lastKey block.recordIndex with
  | none => simp [getRecord, (lastKey_none _).mp last time] at found
  | some key => exact ((lastKey_some _ key).mp last).1

def modifyRecord (block : Block) (timestamp : Nat) (update : Record → Record)
    (same : ∀ record, (update record).timestamp = record.timestamp) : Block :=
  match found : block.getRecord timestamp with
  | some record =>
    { block with
      recordIndex := block.recordIndex.insert timestamp (update record)
      keyed := by
        have stamped : timestamp = (update record).timestamp := by rw [same, getRecord_timestamp found]
        have keyed := block.keyed.insert (update record)
        rwa [← stamped] at keyed }
  | none => block

@[simp] theorem getRecord_modifyRecord (block : Block) (timestamp : Nat) (update : Record → Record)
    (same : ∀ record, (update record).timestamp = record.timestamp) (time : Nat) :
    (block.modifyRecord timestamp update same).getRecord time =
      if time = timestamp then (block.getRecord time).map update else block.getRecord time := by
  unfold modifyRecord
  split
  · rename_i record found
    by_cases equal : time = timestamp
    · subst equal
      simp [getRecord, show block.recordIndex[time]? = some record from found]
    · simp [getRecord, equal]
  · rename_i absent
    by_cases equal : time = timestamp
    · simp [equal, absent]
    · simp [equal]

@[simp] theorem blockId_modifyRecord (block : Block) (timestamp : Nat) (update : Record → Record)
    (same : ∀ record, (update record).timestamp = record.timestamp) :
    (block.modifyRecord timestamp update same).blockId = block.blockId := by
  unfold modifyRecord
  split <;> rfl

@[simp] theorem size_modifyRecord (block : Block) (timestamp : Nat) (update : Record → Record)
    (same : ∀ record, (update record).timestamp = record.timestamp) :
    (block.modifyRecord timestamp update same).size = block.size := by
  unfold modifyRecord
  split <;> rfl

@[simp] theorem recordCount_modifyRecord (block : Block) (timestamp : Nat) (update : Record → Record)
    (same : ∀ record, (update record).timestamp = record.timestamp) :
    (block.modifyRecord timestamp update same).recordCount = block.recordCount := by
  unfold modifyRecord
  split <;> rfl

def records (block : Block) : List Record := block.recordIndex.toList.map Prod.snd

theorem mem_records (block : Block) (record : Record) :
    record ∈ block.records ↔ block.getRecord record.timestamp = some record := by
  unfold records
  simp only [List.mem_map, mem_toList]
  constructor
  · rintro ⟨⟨time, found⟩, member, rfl⟩
    have stamped := block.keyed time found member
    subst stamped
    exact member
  · intro found
    exact ⟨(record.timestamp, record), found, rfl⟩

theorem records_sorted (block : Block) :
    block.records.Pairwise (fun first second => first.timestamp < second.timestamp) := by
  refine List.pairwise_map.mpr ((toList_sorted block.recordIndex).imp_of_mem ?_)
  rintro ⟨firstTime, first⟩ ⟨secondTime, second⟩ firstMember secondMember before
  have firstStamped := block.keyed firstTime first ((mem_toList _ _).mp firstMember)
  have secondStamped := block.keyed secondTime second ((mem_toList _ _).mp secondMember)
  simpa [firstStamped, secondStamped] using before

theorem toList_records (block : Block) :
    block.recordIndex.toList = block.records.map (fun record => (record.timestamp, record)) := by
  unfold records
  rw [List.map_map]
  refine (List.map_id _).symm.trans (List.map_congr_left ?_)
  rintro ⟨time, record⟩ member
  have stamped := block.keyed time record ((mem_toList _ _).mp member)
  simp [stamped]

def indexRecords (records : List Record) : { index : ExtTreeMap Nat Record // Keyed index } :=
  records.foldl (fun index record => ⟨index.1.insert record.timestamp record, index.2.insert record⟩) ⟨∅, .empty⟩

theorem indexRecords_val (records : List Record) (index : { index : ExtTreeMap Nat Record // Keyed index }) :
    (records.foldl (fun index record => ⟨index.1.insert record.timestamp record, index.2.insert record⟩) index :
      { index : ExtTreeMap Nat Record // Keyed index }).1 =
      (records.map (fun record => (record.timestamp, record))).foldl
        (fun current entry => current.insert entry.1 entry.2) index.1 := by
  induction records generalizing index with
  | nil => rfl
  | cons record rest ih => exact ih _

def ofProto (proto : BlockProto) : Block :=
  { blockId := proto.beginTime
    size := proto.size
    recordCount := proto.recordCount
    metadataSize := proto.metadataSize
    recordIndex := (indexRecords proto.records).1
    keyed := (indexRecords proto.records).2 }

def toProto (block : Block) : BlockProto :=
  { beginTime := block.blockId
    latestRecordTime := block.latestRecordTime
    size := block.size
    recordCount := block.recordCount
    metadataSize := block.metadataSize
    records := block.records
    version := none
    corrupted := none }

theorem ofProto_toProto (block : Block) (version : Option Nat) (corrupted : Option Bool) :
    ofProto { block.toProto with version, corrupted } = block := by
  have restored : (indexRecords block.records).1 = block.recordIndex := by
    rw [indexRecords, indexRecords_val, ← toList_records]
    exact foldl_insert_toList block.recordIndex
  ext1 <;> simp [ofProto, toProto, restored]

def changeRecordState (block : Block) (timestamp : Nat) (state : RecordState) : Except ReductError Block :=
  match block.getRecord timestamp with
  | some _ => .ok (block.modifyRecord timestamp (Record.withState state) (Record.timestamp_withState state))
  | none => .error (notFound "Record not found")

section Positions

def reposition (block : Block) (positions : List (Nat × Nat × Nat)) : Block :=
  positions.foldl (fun current position =>
    current.modifyRecord position.1 (Record.moved position.2.1 position.2.2) (Record.timestamp_moved _ _)) block

def recordLengths (block : Block) : List (Nat × Nat) :=
  block.records.map (fun record => (record.timestamp, record.length))

def newPositions (block : Block) : List (Nat × Nat × Nat) := Placement.place 0 block.recordLengths

def compact (block : Block) : Block := block.reposition block.newPositions

end Positions

section Writing

variable [Codec]

def startedRecord (block : Block) (time contentSize : Nat) (contentType : String) (labels : List Label) : Record :=
  { timestamp := time
    beginPos := block.size
    endPos := block.size + contentSize
    state := .started
    labels
    contentType }

def prepareForWriting (block : Block) (time contentSize : Nat) (contentType : String) (labels : List Label) : Block :=
  block.insertOrUpdateRecord (block.startedRecord time contentSize contentType labels)

end Writing

end Block

end ReductStore
